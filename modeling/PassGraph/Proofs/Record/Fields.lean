import PassGraph.Proofs.Json.Skips
import PassGraph.Record.Json

/-!
# The fields of records

The records of a document are read field by field. Each field is told by its key; the name of a leaf
or of an edge type by any of three keys, all of which count as one field.

## Main definitions

* `NodeDraft.fields`, `EdgeTypeDraft.fields`, `EdgeDraft.fields`, `GraphDraft.fields`

## Main results

* `NodeDraft.laid` and its like — reading a record is reading its fields
* `NodeRecord.local_reader` and its like — what follows a record has no part in it
* `NodeRecord.skips_reader` and its like — what is read as a record can be skipped
-/

namespace PassGraph

open Json (Reader)
open Json.Reader

theorem Annotations.local_reader (room : Nat) : Local (Annotations.reader room) :=
  (local_object local_value room).map Dict.ofList

theorem Annotations.skips_reader (room : Nat) : Skips (Annotations.reader room) :=
  (skips_object skips_value room).map Dict.ofList

theorem Status.local_reader (room : Nat) : Local (Status.reader room) :=
  local_variant _ room

theorem Status.skips_reader (room : Nat) : Skips (Status.reader room) :=
  skips_variant _ room

theorem Direction.local_reader (room : Nat) : Local (Direction.reader room) :=
  local_variant _ room

theorem Direction.skips_reader (room : Nat) : Skips (Direction.reader room) :=
  skips_variant _ room

/-- The keys of the name of a leaf or an edge type. -/
def nameKeys : List String :=
  ["identifier", "id", "name"]

theorem isNameKey_iff {k : String} : isNameKey k ↔ k ∈ nameKeys := by
  simp [isNameKey, nameKeys, or_assoc]

/-! ### Leaves -/

namespace NodeDraft

/-- The fields of a leaf. -/
def fields : List (RecordField NodeDraft) :=
  [{ name := "identifier"
     keys := nameKeys
     Value := String
     get := identifier
     set := fun d identifier => { d with identifier }
     reader := Reader.string
     get_set := fun _ _ => rfl },
    .ofKey "content" content (fun d content => { d with content })
      (Reader.optional Reader.string) fun _ _ => rfl,
    .ofKey "status" status (fun d status => { d with status })
      (Reader.optional Status.reader) fun _ _ => rfl,
    .ofKey "annotations" annotations (fun d annotations => { d with annotations })
      Annotations.reader fun _ _ => rfl]

theorem laid : Laid ⟨"struct NodeRecord", {}, member, slots⟩ fields where
  member_eq := by
    funext room d k ts
    refine Eq.symm ((takeMember_cons ..).trans
      (ite_congr (propext isNameKey_iff.symm) (fun _ => rfl) fun _ => ?_))
    exact takeMember_ofKey (takeMember_ofKey (takeMember_ofKey rfl))
  slots_eq := rfl
  isLocal := by
    simp only [fields, List.forall_mem_cons]
    exact ⟨local_string, fun room => local_optional (local_string room),
      fun room => local_optional (Status.local_reader room), Annotations.local_reader, nofun⟩
  independent := by
    simp only [fields, List.pairwise_cons, List.forall_mem_cons, List.Pairwise.nil,
      List.not_mem_nil, false_implies, implies_true, and_true]
    and_intros <;>
      exact ⟨by simp [RecordField.ofKey, nameKeys], fun _ _ => rfl, fun _ _ => rfl, fun _ _ _ => rfl⟩

end NodeDraft

theorem NodeRecord.local_reader (room : Nat) : Local (NodeRecord.reader room) :=
  local_record NodeDraft.laid room

theorem NodeRecord.skips_reader (room : Nat) : Skips (NodeRecord.reader room) := by
  refine skips_record NodeDraft.laid ?_ room
  simp only [NodeDraft.fields, List.forall_mem_cons]
  exact ⟨skips_string, fun room => skips_optional (skips_string room),
    fun room => skips_optional (Status.skips_reader room), Annotations.skips_reader, nofun⟩

/-! ### Edge types -/

namespace EdgeTypeDraft

/-- The fields of an edge type. -/
def fields : List (RecordField EdgeTypeDraft) :=
  [{ name := "identifier"
     keys := nameKeys
     Value := String
     get := identifier
     set := fun d identifier => { d with identifier }
     reader := Reader.string
     get_set := fun _ _ => rfl },
    .ofKey "priority" priority (fun d priority => { d with priority }) Reader.int64 fun _ _ => rfl,
    .ofKey "immediate" immediate (fun d immediate => { d with immediate })
      Reader.bool fun _ _ => rfl,
    .ofKey "direction" direction (fun d direction => { d with direction })
      Direction.reader fun _ _ => rfl,
    .ofKey "annotations" annotations (fun d annotations => { d with annotations })
      Annotations.reader fun _ _ => rfl]

theorem laid : Laid ⟨"struct EdgeTypeRecord", {}, member, slots⟩ fields where
  member_eq := by
    funext room d k ts
    refine Eq.symm ((takeMember_cons ..).trans
      (ite_congr (propext isNameKey_iff.symm) (fun _ => rfl) fun _ => ?_))
    exact takeMember_ofKey (takeMember_ofKey (takeMember_ofKey (takeMember_ofKey rfl)))
  slots_eq := rfl
  isLocal := by
    simp only [fields, List.forall_mem_cons]
    exact ⟨local_string, local_int64, local_bool, Direction.local_reader,
      Annotations.local_reader, nofun⟩
  independent := by
    simp only [fields, List.pairwise_cons, List.forall_mem_cons, List.Pairwise.nil,
      List.not_mem_nil, false_implies, implies_true, and_true]
    and_intros <;>
      exact ⟨by simp [RecordField.ofKey, nameKeys], fun _ _ => rfl, fun _ _ => rfl, fun _ _ _ => rfl⟩

end EdgeTypeDraft

theorem EdgeTypeRecord.local_reader (room : Nat) : Local (EdgeTypeRecord.reader room) :=
  local_record EdgeTypeDraft.laid room

theorem EdgeTypeRecord.skips_reader (room : Nat) : Skips (EdgeTypeRecord.reader room) := by
  refine skips_record EdgeTypeDraft.laid ?_ room
  simp only [EdgeTypeDraft.fields, List.forall_mem_cons]
  exact ⟨skips_string, skips_int64, skips_bool, Direction.skips_reader,
    Annotations.skips_reader, nofun⟩

/-! ### Edges -/

namespace EdgeDraft

/-- The fields of an edge. -/
def fields : List (RecordField EdgeDraft) :=
  [.ofKey "edgeType" edgeType (fun d edgeType => { d with edgeType }) Reader.string fun _ _ => rfl,
    .ofKey "sourceNode" sourceNode (fun d sourceNode => { d with sourceNode })
      Reader.string fun _ _ => rfl,
    .ofKey "targetNode" targetNode (fun d targetNode => { d with targetNode })
      Reader.string fun _ _ => rfl,
    .ofKey "annotations" annotations (fun d annotations => { d with annotations })
      Annotations.reader fun _ _ => rfl]

theorem laid : Laid ⟨"struct EdgeRecord", {}, member, slots⟩ fields where
  member_eq := by
    funext room d k ts
    symm
    exact takeMember_ofKey (takeMember_ofKey (takeMember_ofKey (takeMember_ofKey rfl)))
  slots_eq := rfl
  isLocal := by
    simp only [fields, List.forall_mem_cons]
    exact ⟨local_string, local_string, local_string, Annotations.local_reader, nofun⟩
  independent := by
    simp only [fields, List.pairwise_cons, List.forall_mem_cons, List.Pairwise.nil,
      List.not_mem_nil, false_implies, implies_true, and_true]
    and_intros <;>
      exact ⟨by simp [RecordField.ofKey], fun _ _ => rfl, fun _ _ => rfl, fun _ _ _ => rfl⟩

end EdgeDraft

theorem EdgeRecord.local_reader (room : Nat) : Local (EdgeRecord.reader room) :=
  local_record EdgeDraft.laid room

theorem EdgeRecord.skips_reader (room : Nat) : Skips (EdgeRecord.reader room) := by
  refine skips_record EdgeDraft.laid ?_ room
  simp only [EdgeDraft.fields, List.forall_mem_cons]
  exact ⟨skips_string, skips_string, skips_string, Annotations.skips_reader, nofun⟩

/-! ### Graphs -/

namespace GraphDraft

/-- The fields of a graph. -/
def fields : List (RecordField GraphDraft) :=
  [.ofKey "identifier" identifier (fun d identifier => { d with identifier })
      (Reader.optional Reader.string) fun _ _ => rfl,
    .ofKey "nodes" nodes (fun d nodes => { d with nodes })
      (Reader.array NodeRecord.reader) fun _ _ => rfl,
    .ofKey "edgeTypes" edgeTypes (fun d edgeTypes => { d with edgeTypes })
      (Reader.array EdgeTypeRecord.reader) fun _ _ => rfl,
    .ofKey "edges" edges (fun d edges => { d with edges })
      (Reader.array EdgeRecord.reader) fun _ _ => rfl,
    .ofKey "annotations" annotations (fun d annotations => { d with annotations })
      Annotations.reader fun _ _ => rfl]

theorem laid : Laid ⟨"struct GraphRecord", {}, member, slots⟩ fields where
  member_eq := by
    funext room d k ts
    symm
    exact takeMember_ofKey
      (takeMember_ofKey (takeMember_ofKey (takeMember_ofKey (takeMember_ofKey rfl))))
  slots_eq := rfl
  isLocal := by
    simp only [fields, List.forall_mem_cons]
    exact ⟨fun room => local_optional (local_string room), local_array NodeRecord.local_reader,
      local_array EdgeTypeRecord.local_reader, local_array EdgeRecord.local_reader,
      Annotations.local_reader, nofun⟩
  independent := by
    simp only [fields, List.pairwise_cons, List.forall_mem_cons, List.Pairwise.nil,
      List.not_mem_nil, false_implies, implies_true, and_true]
    and_intros <;>
      exact ⟨by simp [RecordField.ofKey], fun _ _ => rfl, fun _ _ => rfl, fun _ _ _ => rfl⟩

end GraphDraft

theorem GraphRecord.local_reader (room : Nat) : Local (GraphRecord.reader room) :=
  local_record GraphDraft.laid room

theorem GraphRecord.skips_reader (room : Nat) : Skips (GraphRecord.reader room) := by
  refine skips_record GraphDraft.laid ?_ room
  simp only [GraphDraft.fields, List.forall_mem_cons]
  exact ⟨fun room => skips_optional (skips_string room), skips_array NodeRecord.skips_reader,
    skips_array EdgeTypeRecord.skips_reader, skips_array EdgeRecord.skips_reader,
    Annotations.skips_reader, nofun⟩

end PassGraph
