import PassGraph.Proofs.Record.Fields
import PassGraph.Proofs.Record.WellFormed
import Mathlib.Logic.Relation

/-!
# Documents that say the same

Two documents say the same if one comes from the other by changing places of members in the objects
of the graph, its leaves, its edge types and its edges; by naming a field of theirs by another of its
names, or spelling the same name with other escapes; by adding members to them that have none of their
names; and by taking out and putting in blanks. Such documents are read as the same record. What
stands inside a member that is added is of no account: it may be any form at all, however deep.

Nothing is said about the objects of side data, where the last of two members with one name stays, so
that their order does matter.

## Main definitions

* `Form.Kind` — what an object of a document describes
* `Form.Respelled` — one change to a form
* `Rewritten` — one text comes from the other by such changes

## Main results

* `Form.Respelled.accepts` — a changed form is read as what it was before
* `Graph.ofText_rewritten` — every document that is read spells a form, and all that come from it are
  read as the same record
-/

namespace PassGraph

open Json (Form Quoted Reader)
open Json.Reader

namespace Json.Form

/-! ### Changes -/

/-- What an object of a document describes. -/
inductive Kind where
  | graph
  | node
  | edgeType
  | edge
  deriving DecidableEq, Repr

/-- The names of the fields, in the order of their places in an array. -/
def Kind.names : Kind → List (List String)
  | graph => [["identifier"], ["nodes"], ["edgeTypes"], ["edges"], ["annotations"]]
  | node => [["identifier", "id", "name"], ["content"], ["status"], ["annotations"]]
  | edgeType =>
    [["identifier", "id", "name"], ["priority"], ["immediate"], ["direction"], ["annotations"]]
  | edge => [["edgeType"], ["sourceNode"], ["targetNode"], ["annotations"]]

/-- The fields of a graph that hold arrays of other objects: the name, the place, and what the items
describe. -/
def parts : List (String × Nat × Kind) :=
  [("nodes", 1, .node), ("edgeTypes", 2, .edgeType), ("edges", 3, .edge)]

/-- A change to a form that describes something of the given kind. -/
inductive Respelled : Kind → Form → Form → Prop where
  /-- The members of an object change places. -/
  | permute {kind : Kind} {ms ms' : List (Quoted × Form)} : ms.Perm ms' →
    Respelled kind (.object ms) (.object ms')
  /-- A field goes by another of its names, or by the same name with other escapes. -/
  | rename {kind : Kind} {before after : List (Quoted × Form)} {q q' : Quoted} {x : Form}
    {k k' : String} {names : List String} : q.kept = .ok k → q'.kept = .ok k' →
    names ∈ kind.names → k ∈ names → k' ∈ names →
    Respelled kind (.object (before ++ (q, x) :: after)) (.object (before ++ (q', x) :: after))
  /-- A member is added that has the name of no field. -/
  | add {kind : Kind} {before after : List (Quoted × Form)} {q : Quoted} {x : Form} {k : String} :
    q.kept = .ok k → (∀ names ∈ kind.names, k ∉ names) →
    Respelled kind (.object (before ++ after)) (.object (before ++ (q, x) :: after))
  /-- Something under a field of a graph is changed. -/
  | member {kind : Kind} {before after : List (Quoted × Form)} {q : Quoted} {k : String}
    {place : Nat} {xs ys : List Form} {x y : Form} : q.kept = .ok k → (k, place, kind) ∈ parts →
    Respelled kind x y →
    Respelled .graph (.object (before ++ (q, .array (xs ++ x :: ys)) :: after))
      (.object (before ++ (q, .array (xs ++ y :: ys)) :: after))
  /-- Something at a place of a graph that is written as an array is changed. -/
  | slot {kind : Kind} {before after : List Form} {k : String} {xs ys : List Form} {x y : Form} :
    (k, before.length, kind) ∈ parts → Respelled kind x y →
    Respelled .graph (.array (before ++ .array (xs ++ x :: ys) :: after))
      (.array (before ++ .array (xs ++ y :: ys) :: after))

namespace Kind

/-! ### How each kind is read -/

/-- What something of a kind is read as. -/
def Record : Kind → Type
  | graph => GraphRecord
  | node => NodeRecord
  | edgeType => EdgeTypeRecord
  | edge => EdgeRecord

/-- What something of a kind is read into. -/
def Draft : Kind → Type
  | graph => GraphDraft
  | node => NodeDraft
  | edgeType => EdgeTypeDraft
  | edge => EdgeDraft

/-- The reader of a kind. -/
def reader : (kind : Kind) → Reader kind.Record
  | graph => GraphRecord.reader
  | node => NodeRecord.reader
  | edgeType => EdgeTypeRecord.reader
  | edge => EdgeRecord.reader

/-- The shape of the records of a kind. -/
def shape : (kind : Kind) → Shape kind.Draft
  | graph => ⟨"struct GraphRecord", {}, GraphDraft.member, GraphDraft.slots⟩
  | node => ⟨"struct NodeRecord", {}, NodeDraft.member, NodeDraft.slots⟩
  | edgeType => ⟨"struct EdgeTypeRecord", {}, EdgeTypeDraft.member, EdgeTypeDraft.slots⟩
  | edge => ⟨"struct EdgeRecord", {}, EdgeDraft.member, EdgeDraft.slots⟩

/-- The record of a draft. -/
def complete : (kind : Kind) → (keyed : Bool) → kind.Draft → Except Json.Fault kind.Record
  | graph => fun _ d => .ok d.complete
  | node => fun _ d => .ok d.complete
  | edgeType => fun _ d => .ok d.complete
  | edge => EdgeDraft.complete

/-- The fields of a kind. -/
def fields : (kind : Kind) → List (RecordField kind.Draft)
  | graph => GraphDraft.fields
  | node => NodeDraft.fields
  | edgeType => EdgeTypeDraft.fields
  | edge => EdgeDraft.fields

variable {kind : Kind}

theorem reader_eq (kind : Kind) : kind.reader = Reader.record kind.shape kind.complete := by
  cases kind <;> rfl

theorem laid (kind : Kind) : Laid kind.shape kind.fields :=
  match kind with
  | graph => GraphDraft.laid
  | node => NodeDraft.laid
  | edgeType => EdgeTypeDraft.laid
  | edge => EdgeDraft.laid

theorem local_reader (kind : Kind) (room : Nat) : Local (kind.reader room) := by
  rw [reader_eq]
  exact local_record kind.laid room

theorem map_keys_fields (kind : Kind) : kind.fields.map RecordField.keys = kind.names := by
  cases kind <;> rfl

/-- The names of a field lead to one field. -/
theorem exists_fieldOf_eq {names : List String} (h : names ∈ kind.names) :
    ∃ f, ∀ k ∈ names, fieldOf kind.fields k = some f := by
  rw [← map_keys_fields] at h
  obtain ⟨f, hf, rfl⟩ := List.mem_map.mp h
  exact ⟨f, fun k hk => fieldOf_eq_some kind.laid.independent hf hk⟩

theorem fieldOf_eq_none {k : String} (h : ∀ names ∈ kind.names, k ∉ names) :
    fieldOf kind.fields k = none :=
  fieldOf_eq_none_iff.mpr fun f hf =>
    h f.keys (by rw [← map_keys_fields]; exact List.mem_map_of_mem hf)

/-- A part of a graph is an array of what the part describes. -/
theorem exists_field_of_mem_parts {k : String} {place : Nat} (h : (k, place, kind) ∈ parts) :
    ∃ f, graph.fields[place]? = some f ∧ fieldOf graph.fields k = some f ∧
      ∀ {room : Nat} {xs ys : List Form} {x y : Form},
        (∀ {room : Nat} {a : kind.Record},
          Accepts (kind.reader room) x a → Accepts (kind.reader room) y a) →
        ∀ v, Accepts (f.reader room) (.array (xs ++ x :: ys)) v →
          Accepts (f.reader room) (.array (xs ++ y :: ys)) v := by
  simp only [parts, List.mem_cons, Prod.mk.injEq, List.not_mem_nil, or_false] at h
  rcases h with ⟨rfl, rfl, rfl⟩ | ⟨rfl, rfl, rfl⟩ | ⟨rfl, rfl, rfl⟩
  · exact ⟨_, rfl, rfl, fun hread _ => accepts_array_replace NodeRecord.local_reader hread⟩
  · exact ⟨_, rfl, rfl, fun hread _ => accepts_array_replace EdgeTypeRecord.local_reader hread⟩
  · exact ⟨_, rfl, rfl, fun hread _ => accepts_array_replace EdgeRecord.local_reader hread⟩

end Kind

/-! ### Changed forms are read alike -/

/-- **A changed form is read as what it was before.** -/
theorem Respelled.accepts {kind : Kind} {d d' : Form} (h : Respelled kind d d') {room : Nat}
    {a : kind.Record} (ha : Accepts (kind.reader room) d a) : Accepts (kind.reader room) d' a := by
  induction h generalizing room with
  | @permute kind ms ms' hms =>
    rw [kind.reader_eq] at ha ⊢
    obtain ⟨within, d, hroom, hfills, hd⟩ := kind.laid.accepts_object_iff.mp ha
    exact kind.laid.accepts_object_iff.mpr ⟨within, d, hroom, kind.laid.fills_perm hms hfills, hd⟩
  | @rename kind before after q q' x k k' names hk hk' hnames hmem hmem' =>
    rw [kind.reader_eq] at ha ⊢
    obtain ⟨within, d, hroom, hfills, hd⟩ := kind.laid.accepts_object_iff.mp ha
    obtain ⟨f, hf⟩ := Kind.exists_fieldOf_eq hnames
    have hfills' := kind.laid.fills_replace hk hk' (hf k hmem) (hf k' hmem') (fun _ hv => hv) hfills
    exact kind.laid.accepts_object_iff.mpr ⟨within, d, hroom, hfills', hd⟩
  | @add kind before after q x k hk hunknown =>
    rw [kind.reader_eq] at ha ⊢
    obtain ⟨within, d, hroom, hfills, hd⟩ := kind.laid.accepts_object_iff.mp ha
    have hfills' := kind.laid.fills_add hk (Kind.fieldOf_eq_none hunknown) x hfills
    exact kind.laid.accepts_object_iff.mpr ⟨within, d, hroom, hfills', hd⟩
  | @member kind before after q k place xs ys x y hk hpart _ ih =>
    rw [Kind.graph.reader_eq] at ha ⊢
    obtain ⟨within, d, hroom, hfills, hd⟩ := Kind.graph.laid.accepts_object_iff.mp ha
    obtain ⟨f, -, hf, hread⟩ := Kind.exists_field_of_mem_parts hpart
    have hfills' := Kind.graph.laid.fills_replace hk hk hf hf (hread ih) hfills
    exact Kind.graph.laid.accepts_object_iff.mpr ⟨within, d, hroom, hfills', hd⟩
  | @slot kind before after k xs ys x y hpart _ ih =>
    rw [Kind.graph.reader_eq] at ha ⊢
    obtain ⟨within, d, hroom, hfits, hd⟩ := Kind.graph.laid.accepts_array_iff.mp ha
    obtain ⟨f, hf, -, hread⟩ := Kind.exists_field_of_mem_parts hpart
    exact Kind.graph.laid.accepts_array_iff.mpr ⟨within, d, hroom, hfits.replace hf (hread ih), hd⟩

/-- Any number of changes. -/
theorem accepts_of_respelled {kind : Kind} {d d' : Form}
    (h : Relation.ReflTransGen (Respelled kind) d d') {room : Nat} {a : kind.Record}
    (ha : Accepts (kind.reader room) d a) : Accepts (kind.reader room) d' a := by
  induction h with
  | refl => exact ha
  | tail _ hstep ih => exact hstep.accepts ih

end Json.Form

/-! ### Whole documents -/

open Json.Form

/-- One text comes from the other by changes to its form and to its blanks. -/
def Rewritten (s s' : String) : Prop :=
  ∃ d d' : Form, d.Spells s ∧ d'.Spells s' ∧ Relation.ReflTransGen (Respelled .graph) d d'

variable {s s' : String} {g : Graph}

theorem GraphRecord.parse_eq_ok_iff {r : GraphRecord} :
    parse s = .ok r ↔ GraphRecord.reader.run s = .ok r := by
  rw [parse]
  cases GraphRecord.reader.run s with
  | ok r' => exact ⟨fun h => congrArg _ (Except.ok.inj h), fun h => congrArg _ (Except.ok.inj h)⟩
  | error f => exact ⟨nofun, nofun⟩

/-- A text that spells a form is read as the reader reads the tokens of the form. -/
theorem GraphRecord.parse_of_spells {d : Form} {r : GraphRecord} (hs : d.Spells s)
    (hr : GraphRecord.reader Reader.room (d.toTokens []) = .ok (r, [])) : parse s = .ok r := by
  rw [parse_eq_ok_iff, run_eq_ok_iff, hs.tokens_eq]
  exact hr

/-- Documents that say the same are read as the same record. -/
theorem Rewritten.parse_eq_ok (h : Rewritten s s') {r : GraphRecord}
    (hr : GraphRecord.parse s = .ok r) : GraphRecord.parse s' = .ok r := by
  obtain ⟨d, d', hs, hs', hd⟩ := h
  have hlocal := GraphRecord.local_reader Reader.room
  have hread := (run_eq_ok_iff_accepts hlocal hs).mp (GraphRecord.parse_eq_ok_iff.mp hr)
  have hread' : Accepts (Kind.graph.reader Reader.room) d' r := accepts_of_respelled hd hread
  exact GraphRecord.parse_eq_ok_iff.mpr ((run_eq_ok_iff_accepts hlocal hs').mpr hread')

/-- Every document that is read spells a form. -/
theorem GraphRecord.exists_spells {r : GraphRecord} (h : parse s = .ok r) :
    ∃ d : Form, d.Spells s :=
  (skips_reader Reader.room).exists_spells (parse_eq_ok_iff.mp h)

/-- **Reading does not depend on spelling.** A document that is read as a graph spells a form, and any
document that comes from it by changes of form and of blanks is read as the same record and the same
graph, unless it is too large. -/
theorem Graph.ofText_rewritten (hg : Graph.ofText s = .ok g) :
    ∃ r, GraphRecord.parse s = .ok r ∧ r.toGraph = .ok g ∧ (∃ d : Form, d.Spells s) ∧
      ∀ s', Rewritten s s' → s'.utf8ByteSize ≤ documentLimit →
        GraphRecord.parse s' = .ok r ∧ Graph.ofText s' = .ok g := by
  obtain ⟨-, r, hparse, hr⟩ := Graph.ofText_eq_ok_iff.mp hg
  refine ⟨r, hparse, hr, GraphRecord.exists_spells hparse, fun s' h hsize => ?_⟩
  have hparse' := h.parse_eq_ok hparse
  exact ⟨hparse', Graph.ofText_eq_ok_iff.mpr ⟨hsize, r, hparse', hr⟩⟩

/-- A document with two fields and a leaf, and the same with the fields and the name of the leaf
changed, a member added and blanks put in. -/
theorem Graph.ofText_rewritten_leaf :
    let s := "\x7b\"nodes\":[\x7b\"identifier\":\"a\"\x7d],\"edges\":[]\x7d"
    let s' := "\x7b\"edges\": [ ],\n \"nodes\": [\x7b\"note\": [[], null], \"id\": \"a\"\x7d]\x7d"
    Rewritten s s' ∧ ∃ r g, GraphRecord.parse s = .ok r ∧ Graph.ofText s = .ok g ∧
      GraphRecord.parse s' = .ok r ∧ Graph.ofText s' = .ok g := by
  intro s s'
  let nodes : Quoted := .plain "nodes" (by simp)
  let edges : Quoted := .plain "edges" (by simp)
  let identifier : Quoted := .plain "identifier" (by simp)
  let id : Quoted := .plain "id" (by simp)
  let note : Quoted := .plain "note" (by simp)
  let name : Form := .string (.plain "a" (by simp))
  let noted : Quoted × Form := (note, .array [.array [], .null])
  let d : Form := .object [(nodes, .array [.object [(identifier, name)]]), (edges, .array [])]
  let d₁ : Form := .object [(nodes, .array [.object [(id, name)]]), (edges, .array [])]
  let d₂ : Form := .object [(nodes, .array [.object [noted, (id, name)]]), (edges, .array [])]
  let d₃ : Form := .object [(edges, .array []), (nodes, .array [.object [noted, (id, name)]])]
  have hs : d.Spells s := by decide +kernel
  have hs' : d₃.Spells s' := by decide +kernel
  have hnodes : nodes.kept = .ok "nodes" := Quoted.kept_plain ..
  have hid : id.kept = .ok "id" := Quoted.kept_plain ..
  have hrename : Respelled .node (.object [(identifier, name)]) (.object [(id, name)]) :=
    @Respelled.rename .node [] [] identifier id name "identifier" "id" _ (Quoted.kept_plain ..) hid
      List.mem_cons_self (by decide) (by decide)
  have hadd : Respelled .node (.object [(id, name)]) (.object [noted, (id, name)]) :=
    @Respelled.add .node [] _ note _ "note" (Quoted.kept_plain ..) (by decide)
  have h₁ : Respelled .graph d d₁ :=
    @Respelled.member .node [] _ nodes "nodes" 1 [] [] _ _ hnodes (by decide) hrename
  have h₂ : Respelled .graph d₁ d₂ :=
    @Respelled.member .node [] _ nodes "nodes" 1 [] [] _ _ hnodes (by decide) hadd
  have h₃ : Respelled .graph d₂ d₃ := .permute (.swap _ _ _)
  have hrewritten : Rewritten s s' := ⟨d, d₃, hs, hs', .tail (.tail (.tail .refl h₁) h₂) h₃⟩
  let r : GraphRecord := { nodes := [{ identifier := "a" }] }
  have hr : GraphRecord.parse s = .ok r := GraphRecord.parse_of_spells hs rfl
  obtain ⟨g, hg⟩ := exists_eq_ok (x := r.toGraph) (by decide +kernel)
  have hofText : Graph.ofText s = .ok g :=
    Graph.ofText_eq_ok_iff.mpr ⟨by decide +kernel, r, hr, hg⟩
  obtain ⟨r', hr', -, -, hread⟩ := Graph.ofText_rewritten hofText
  obtain ⟨hparse, hofText'⟩ := hread s' hrewritten (by decide +kernel)
  exact ⟨hrewritten, r', g, hr', hofText, hparse, hofText'⟩

end PassGraph
