import PassGraph.Proofs.Json.Reading
import PassGraph.Record.Json

/-!
# Documents come back

A record is written as an object of its fields, and the reader of a record takes the members up in
the order in which they are written. A field that may be absent adds either one member or none; in
both cases the draft afterwards holds the field, since a field that is missing in the draft means
the same as one that is absent in the record.

So a record comes back from its document, in either layout and with a line break at the end or
without, if its side data is plain, its priorities are numbers of 64 bits with sign, and its text
nests no deeper than a reader goes. For a graph it follows that going through its document is the
same as going through its record.

## Main definitions

* `GraphRecord.Plain` — a record that its document tells exactly

## Main results

* `GraphRecord.Plain.reads` — the reader takes the tokens of a record for the record
* `GraphRecord.Plain.parse_text` — the document of a record is read as the record
-/

namespace PassGraph

open Json (Layout Token Reader Lexes)
open Json.Reader (Reads Takes)

variable {room : Nat}

/-! ### Members -/

/-- A member that may be absent is taken up in either case, if the draft without it stays. -/
theorem takes_optionalMember {α σ : Type} {member : σ → String → List Token →
      Except Json.Fault (σ × List Token)} {key : String} {write : α → Json} {o : Option α}
    {s s' : σ} (hnone : o = none → s' = s)
    (hsome : ∀ a, o = some a → Reads (fun ts => member s key (.colon :: ts)) (write a) s') :
    Takes member s (optionalMember key write o) s' := by
  cases o with
  | none =>
    rw [hnone rfl]
    exact .nil s
  | some a => exact .single (hsome a rfl)

/-- A field that was not there before is taken up. -/
theorem reads_once {α : Type} {value : List Token → Except Json.Fault (α × List Token)} {v : Json}
    {a : α} (h : Reads value v a) (key : String) :
    Reads (fun ts => Reader.once key none value (.colon :: ts)) v (some a) := by
  intro ts
  simp only [Reader.once, Option.isSome_none, Bool.false_eq_true, if_false, h.afterColon ts,
    Except.map]

/-! ### Side data -/

namespace Annotations

/-- Side data that comes back as it was. -/
def Plain (a : Annotations) : Prop :=
  ∀ m ∈ a.entries, m.2.Plain

instance : DecidablePred Plain :=
  fun a => inferInstanceAs (Decidable (∀ m ∈ a.entries, m.2.Plain))

/-- Side data, unless there is none. -/
def some? (a : Annotations) : Option Annotations :=
  if a.isEmpty then none else some a

theorem toMembers_eq (a : Annotations) :
    a.toMembers = optionalMember "annotations" toJson a.some? := by
  rw [toMembers, some?]
  split <;> rfl

theorem getD_some? (a : Annotations) : a.some?.getD {} = a := by
  rw [some?]
  split
  next h => exact Dict.ext_entries (List.isEmpty_iff.mp h).symm
  next => rfl

theorem eq_of_some? {a b : Annotations} (h : a.some? = some b) : b = a := by
  rw [some?] at h
  split at h
  · simp at h
  · exact (Option.some.inj h).symm

namespace Plain

variable {a : Annotations}

theorem toJson (h : a.Plain) : a.toJson.Plain := by
  refine ⟨List.pairwise_map.mpr (a.ascending.imp fun {x y} hlt heq => ?_),
    Json.plainMembers_iff.mpr h⟩
  exact String.lt_irrefl x.1 (heq ▸ hlt)

theorem toMembers (h : a.Plain) : Json.PlainMembers a.toMembers := by
  rw [Annotations.toMembers]
  split
  · exact trivial
  · exact ⟨h.toJson, trivial⟩

theorem reads (h : a.Plain) (hroom : a.toJson.depth ≤ room) :
    Reads (Annotations.reader room) a.toJson a := by
  cases room with
  | zero => exact absurd hroom (by simp [Annotations.toJson, Json.depth])
  | succ room =>
    have hentries : ∀ m ∈ a.entries, Reads (Reader.value room) m.2 m.2 := fun m hm =>
      Reader.reads_value (h m hm)
        (Nat.le_of_lt_succ (Nat.lt_of_lt_of_le (Json.depth_lt_object hm) hroom))
    intro ts
    have hobject := Reads.object Reader.value hentries ts
    simp only [Annotations.reader, Annotations.toJson, hobject, Except.map, Dict.ofList_entries]

/-- Side data that is there is read in an object that there is room for. -/
theorem reads_some? (h : a.Plain) (hroom : ∀ m ∈ a.toMembers, m.2.depth ≤ room)
    {b : Annotations} (hb : a.some? = some b) : Reads (Annotations.reader room) b.toJson b := by
  obtain rfl := eq_of_some? hb
  refine h.reads (hroom ("annotations", b.toJson) ?_)
  rw [toMembers_eq, hb]
  exact List.mem_cons_self

end Plain

end Annotations

/-! ### Leaves, edge types and edges

The members of a record are taken up in the order of its fields, so each record goes through its
drafts from the empty one to the full one.
-/

theorem getD_map_some {α : Type} (o : Option α) : (o.map some).getD none = o := by
  cases o <;> rfl

/-- An object whose keys are some of the fields is plain if its values are. -/
theorem plain_object (fields : List String) {ms : List (String × Json)}
    (hkeys : (ms.map (·.1)).Sublist fields) (hfields : fields.Nodup) (h : Json.PlainMembers ms) :
    (Json.object ms).Plain :=
  ⟨hkeys.nodup hfields, h⟩

theorem plainMembers_append {ms ns : List (String × Json)} (hms : Json.PlainMembers ms)
    (hns : Json.PlainMembers ns) : Json.PlainMembers (ms ++ ns) := by
  rw [Json.plainMembers_iff] at *
  exact fun m hm => (List.mem_append.mp hm).elim (hms m) (hns m)

theorem plainMembers_optionalMember {α : Type} {key : String} {write : α → Json} {o : Option α}
    (h : ∀ a, (write a).Plain) : Json.PlainMembers (optionalMember key write o) := by
  cases o with
  | none => exact trivial
  | some a => exact ⟨h a, trivial⟩

theorem keys_optionalMember {α : Type} (key : String) (write : α → Json) (o : Option α) :
    ((optionalMember key write o).map (·.1)).Sublist [key] := by
  cases o with
  | none => exact List.nil_sublist _
  | some a => exact List.Sublist.refl _

theorem Annotations.keys_toMembers (a : Annotations) :
    (a.toMembers.map (·.1)).Sublist ["annotations"] :=
  a.toMembers_eq ▸ keys_optionalMember _ _ _

/-- What is inside an object nests less deep than it. -/
theorem depth_le_of_object {ms : List (String × Json)}
    (hroom : (Json.object ms).depth ≤ room + 1) : ∀ m ∈ ms, m.2.depth ≤ room :=
  fun _ hm => Nat.le_of_lt_succ (Nat.lt_of_lt_of_le (Json.depth_lt_object hm) hroom)

namespace NodeRecord

theorem plain_toJson {n : NodeRecord} (h : n.annotations.Plain) : n.toJson.Plain := by
  rw [toJson]
  refine plain_object ["identifier", "content", "status", "annotations"] ?_ (by decide) ?_
  · simp only [List.map_append]
    exact (((List.Sublist.refl _).append (keys_optionalMember _ _ _)).append
      (keys_optionalMember _ _ _)).append n.annotations.keys_toMembers
  · exact plainMembers_append (plainMembers_append (plainMembers_append ⟨trivial, trivial⟩
      (plainMembers_optionalMember fun _ => trivial)) (plainMembers_optionalMember fun _ => trivial))
      h.toMembers

theorem reads {n : NodeRecord} (h : n.annotations.Plain) (hroom : n.toJson.depth ≤ room) :
    Reads (NodeRecord.reader room) n.toJson n := by
  obtain ⟨identifier, content, status, annotations⟩ := n
  cases room with
  | zero => exact absurd hroom (by simp [toJson, Json.depth])
  | succ room =>
    have hinner := depth_le_of_object hroom
    have hidentifier : Takes (NodeDraft.member room) {} [("identifier", .string identifier)]
        { identifier := some identifier } := .single fun _ => rfl
    have hcontent : Takes (NodeDraft.member room) { identifier := some identifier }
        (optionalMember "content" .string content)
        { identifier := some identifier, content := content.map some } :=
      takes_optionalMember (fun h => by rw [h]; rfl) fun s h _ => by rw [h]; rfl
    have hstatus : Takes (NodeDraft.member room)
        { identifier := some identifier, content := content.map some }
        (optionalMember "status" (fun s => .string s.name) status)
        { identifier := some identifier, content := content.map some,
          status := status.map some } :=
      takes_optionalMember (fun h => by rw [h]; rfl) fun s h _ => by
        rw [h]
        cases s <;> rfl
    have hannotations : Takes (NodeDraft.member room)
        { identifier := some identifier, content := content.map some, status := status.map some }
        annotations.toMembers
        { identifier := some identifier, content := content.map some, status := status.map some,
          annotations := annotations.some? } := by
      rw [Annotations.toMembers_eq]
      refine takes_optionalMember (fun h => by rw [h]) fun a ha ts => ?_
      have hread := reads_once (h.reads_some? (fun m hm => hinner m (by simp [hm])) ha)
        "annotations" ts
      simp [NodeDraft.member, isNameKey, hread, ha, bind, Except.bind, pure, Except.pure]
    refine Reads.record (((hidentifier.append hcontent).append hstatus).append hannotations) ?_
    simp [NodeDraft.complete, Annotations.getD_some?, getD_map_some]

end NodeRecord

namespace EdgeTypeRecord

/-- An edge type that comes back as it was. -/
structure Plain (t : EdgeTypeRecord) : Prop where
  /-- The priority is a number of 64 bits with sign. -/
  priority : Numeral.int64Min ≤ t.priority ∧ t.priority ≤ Numeral.int64Max
  /-- The side data comes back as it was. -/
  annotations : t.annotations.Plain

instance : DecidablePred Plain := fun t =>
  decidable_of_iff ((Numeral.int64Min ≤ t.priority ∧ t.priority ≤ Numeral.int64Max) ∧
    t.annotations.Plain) ⟨fun h => ⟨h.1, h.2⟩, fun h => ⟨h.1, h.2⟩⟩

variable {t : EdgeTypeRecord}

theorem Plain.toJson (h : t.Plain) : t.toJson.Plain := by
  rw [EdgeTypeRecord.toJson]
  refine plain_object ["identifier", "priority", "immediate", "direction", "annotations"] ?_
    (by decide) ?_
  · rw [List.map_append]
    exact (List.Sublist.refl _).append t.annotations.keys_toMembers
  · have hpriority : (Number.int t.priority).Plain :=
      ⟨h.priority.1, Int.le_trans h.priority.2 (by decide)⟩
    exact plainMembers_append ⟨trivial, hpriority, trivial, trivial, trivial⟩
      h.annotations.toMembers

theorem Plain.reads (h : t.Plain) (hroom : t.toJson.depth ≤ room) :
    Reads (EdgeTypeRecord.reader room) t.toJson t := by
  obtain ⟨identifier, priority, immediate, direction, annotations⟩ := t
  cases room with
  | zero => exact absurd hroom (by simp [EdgeTypeRecord.toJson, Json.depth])
  | succ room =>
    have hinner := depth_le_of_object hroom
    have hidentifier : Takes (EdgeTypeDraft.member room) {} [("identifier", .string identifier)]
        { identifier := some identifier } := .single fun _ => rfl
    have hpriority : Takes (EdgeTypeDraft.member room) { identifier := some identifier }
        [("priority", .number (.int priority))]
        { identifier := some identifier, priority := some priority } := by
      refine .single fun ts => ?_
      simp only [EdgeTypeDraft.member,
        reads_once (Reader.reads_int64 room h.priority) "priority" ts]
      rfl
    have himmediate : Takes (EdgeTypeDraft.member room)
        { identifier := some identifier, priority := some priority }
        [("immediate", .bool immediate)]
        { identifier := some identifier, priority := some priority,
          immediate := some immediate } := .single fun _ => rfl
    have hdirection : Takes (EdgeTypeDraft.member room)
        { identifier := some identifier, priority := some priority, immediate := some immediate }
        [("direction", .string direction.name)]
        { identifier := some identifier, priority := some priority, immediate := some immediate,
          direction := some direction } := by
      cases direction <;> exact .single fun _ => rfl
    have hannotations : Takes (EdgeTypeDraft.member room)
        { identifier := some identifier, priority := some priority, immediate := some immediate,
          direction := some direction }
        annotations.toMembers
        { identifier := some identifier, priority := some priority, immediate := some immediate,
          direction := some direction, annotations := annotations.some? } := by
      rw [Annotations.toMembers_eq]
      refine takes_optionalMember (fun h => by rw [h]) fun a ha ts => ?_
      have hread := reads_once
        (h.annotations.reads_some? (fun m hm => hinner m (by simp [hm])) ha) "annotations" ts
      simp [EdgeTypeDraft.member, isNameKey, hread, ha, bind, Except.bind, pure, Except.pure]
    have hall := hidentifier.append (hpriority.append (himmediate.append hdirection))
    refine Reads.record (hall.append hannotations) ?_
    simp [EdgeTypeDraft.complete, Annotations.getD_some?]

end EdgeTypeRecord

namespace EdgeRecord

theorem plain_toJson {e : EdgeRecord} (h : e.annotations.Plain) : e.toJson.Plain := by
  rw [toJson]
  refine plain_object ["edgeType", "sourceNode", "targetNode", "annotations"] ?_ (by decide) ?_
  · rw [List.map_append]
    exact (List.Sublist.refl _).append e.annotations.keys_toMembers
  · exact plainMembers_append ⟨trivial, trivial, trivial, trivial⟩ h.toMembers

theorem reads {e : EdgeRecord} (h : e.annotations.Plain) (hroom : e.toJson.depth ≤ room) :
    Reads (EdgeRecord.reader room) e.toJson e := by
  obtain ⟨edgeType, sourceNode, targetNode, annotations⟩ := e
  cases room with
  | zero => exact absurd hroom (by simp [toJson, Json.depth])
  | succ room =>
    have hinner := depth_le_of_object hroom
    have hfields : Takes (EdgeDraft.member room) {}
        [("edgeType", .string edgeType), ("sourceNode", .string sourceNode),
          ("targetNode", .string targetNode)]
        { edgeType := some edgeType, sourceNode := some sourceNode,
          targetNode := some targetNode } :=
      .cons (fun _ => rfl) (.cons (fun _ => rfl) (.single fun _ => rfl))
    have hannotations : Takes (EdgeDraft.member room)
        { edgeType := some edgeType, sourceNode := some sourceNode, targetNode := some targetNode }
        annotations.toMembers
        { edgeType := some edgeType, sourceNode := some sourceNode, targetNode := some targetNode,
          annotations := annotations.some? } := by
      rw [Annotations.toMembers_eq]
      refine takes_optionalMember (fun h => by rw [h]) fun a ha ts => ?_
      have hread := reads_once (h.reads_some? (fun m hm => hinner m (by simp [hm])) ha)
        "annotations" ts
      simp [EdgeDraft.member, hread, ha, bind, Except.bind, pure, Except.pure]
    refine Reads.record (hfields.append hannotations) ?_
    simp [EdgeDraft.complete, EdgeDraft.require, Annotations.getD_some?, bind, Except.bind, pure,
      Except.pure]

end EdgeRecord

/-! ### Records of graphs -/

namespace GraphRecord

/-- A record that comes back from its document as it was: its side data is plain, and so are its
priorities. -/
structure Plain (r : GraphRecord) : Prop where
  /-- The side data of the graph comes back as it was. -/
  annotations : r.annotations.Plain
  /-- The side data of the leaves comes back as it was. -/
  nodes : ∀ n ∈ r.nodes, n.annotations.Plain
  /-- The edge types come back as they were. -/
  edgeTypes : ∀ t ∈ r.edgeTypes, t.Plain
  /-- The side data of the edges comes back as it was. -/
  edges : ∀ e ∈ r.edges, e.annotations.Plain

instance : DecidablePred Plain := fun r =>
  decidable_of_iff (r.annotations.Plain ∧ (∀ n ∈ r.nodes, n.annotations.Plain) ∧
      (∀ t ∈ r.edgeTypes, t.Plain) ∧ ∀ e ∈ r.edges, e.annotations.Plain)
    ⟨fun h => ⟨h.1, h.2.1, h.2.2.1, h.2.2.2⟩, fun h => ⟨h.1, h.2, h.3, h.4⟩⟩

namespace Plain

variable {r : GraphRecord}

theorem toJson (h : r.Plain) : r.toJson.Plain := by
  have items {α : Type} {f : α → Json} {as : List α} (h : ∀ a ∈ as, (f a).Plain) :
      Json.PlainItems (as.map f) := by
    rw [Json.plainItems_iff]
    simpa using h
  rw [GraphRecord.toJson]
  refine plain_object ["identifier", "nodes", "edgeTypes", "edges", "annotations"] ?_ (by decide) ?_
  · simp only [List.map_append]
    exact ((keys_optionalMember _ _ _).append (List.Sublist.refl _)).append
      r.annotations.keys_toMembers
  · refine plainMembers_append (plainMembers_append (plainMembers_optionalMember fun _ => trivial)
      ⟨?_, ?_, ?_, trivial⟩) h.annotations.toMembers
    · exact items fun n hn => NodeRecord.plain_toJson (h.nodes n hn)
    · exact items fun t ht => (h.edgeTypes t ht).toJson
    · exact items fun e he => EdgeRecord.plain_toJson (h.edges e he)

/-- The reader takes the tokens of a record for the record. -/
theorem reads (h : r.Plain) (hroom : r.toJson.depth ≤ room) :
    Reads (GraphRecord.reader room) r.toJson r := by
  obtain ⟨identifier, nodes, edgeTypes, edges, annotations⟩ := r
  cases room with
  | zero => exact absurd hroom (by simp [GraphRecord.toJson, Json.depth])
  | succ room =>
    have hinner := depth_le_of_object hroom
    have hidentifier : Takes (GraphDraft.member room) {}
        (optionalMember "identifier" .string identifier)
        { identifier := identifier.map some } :=
      takes_optionalMember (fun h => by rw [h]; rfl) fun s h _ => by rw [h]; rfl
    have hnodes : Takes (GraphDraft.member room) { identifier := identifier.map some }
        [("nodes", .array (nodes.map NodeRecord.toJson))]
        { identifier := identifier.map some, nodes := some nodes } := by
      have hread := Reads.array_of_depth NodeRecord.reader
        (hinner ("nodes", .array (nodes.map NodeRecord.toJson)) (by simp))
        fun n hn _ hn' => NodeRecord.reads (h.nodes n hn) hn'
      refine .single fun ts => ?_
      simp only [GraphDraft.member, reads_once hread "nodes" ts]
      rfl
    have hedgeTypes : Takes (GraphDraft.member room)
        { identifier := identifier.map some, nodes := some nodes }
        [("edgeTypes", .array (edgeTypes.map EdgeTypeRecord.toJson))]
        { identifier := identifier.map some, nodes := some nodes,
          edgeTypes := some edgeTypes } := by
      have hread := Reads.array_of_depth EdgeTypeRecord.reader
        (hinner ("edgeTypes", .array (edgeTypes.map EdgeTypeRecord.toJson)) (by simp))
        fun t ht _ ht' => (h.edgeTypes t ht).reads ht'
      refine .single fun ts => ?_
      simp only [GraphDraft.member, reads_once hread "edgeTypes" ts]
      rfl
    have hedges : Takes (GraphDraft.member room)
        { identifier := identifier.map some, nodes := some nodes, edgeTypes := some edgeTypes }
        [("edges", .array (edges.map EdgeRecord.toJson))]
        { identifier := identifier.map some, nodes := some nodes, edgeTypes := some edgeTypes,
          edges := some edges } := by
      have hread := Reads.array_of_depth EdgeRecord.reader
        (hinner ("edges", .array (edges.map EdgeRecord.toJson)) (by simp))
        fun e he _ he' => EdgeRecord.reads (h.edges e he) he'
      refine .single fun ts => ?_
      simp only [GraphDraft.member, reads_once hread "edges" ts]
      rfl
    have hannotations : Takes (GraphDraft.member room)
        { identifier := identifier.map some, nodes := some nodes, edgeTypes := some edgeTypes,
          edges := some edges }
        annotations.toMembers
        { identifier := identifier.map some, nodes := some nodes, edgeTypes := some edgeTypes,
          edges := some edges, annotations := annotations.some? } := by
      rw [Annotations.toMembers_eq]
      refine takes_optionalMember (fun h => by rw [h]) fun a ha ts => ?_
      have hread := reads_once
        (h.annotations.reads_some? (fun m hm => hinner m (by simp [hm])) ha) "annotations" ts
      simp [GraphDraft.member, hread, ha, bind, Except.bind, pure, Except.pure]
    have hall := hidentifier.append (hnodes.append (hedgeTypes.append hedges))
    refine Reads.record (hall.append hannotations) ?_
    simp [GraphDraft.complete, Annotations.getD_some?, getD_map_some]

/-- The document of a record is read as the record, with a line break at its end or without. -/
theorem parse_text (h : r.Plain) (hdepth : r.toJson.depth ≤ Reader.room) (l : Layout) :
    parse (r.text l) = .ok r ∧ parse (r.text l ++ "\n") = .ok r := by
  have htokens : Json.tokens (r.text l) = r.toJson.cut [] :=
    Json.tokens_text_object l h.toJson
  have htokensLine : Json.tokens (r.text l ++ "\n") = r.toJson.cut [] :=
    Json.tokens_text_object_newline l h.toJson
  have hreads := h.reads hdepth
  rw [parse, parse, Reader.run_eq_ok hreads htokens, Reader.run_eq_ok hreads htokensLine]
  exact ⟨rfl, rfl⟩

end Plain

end GraphRecord

theorem Graph.ofText_eq {s : String} {r : GraphRecord} (hsize : s.utf8ByteSize ≤ documentLimit)
    (hparse : GraphRecord.parse s = .ok r) : Graph.ofText s = r.toGraph := by
  have hfits : ¬documentLimit < s.utf8ByteSize := Nat.not_lt.mpr hsize
  simp only [Graph.ofText, hfits, if_false, hparse, bind, Except.bind]

/-- A character takes at most four bytes. -/
theorem utf8ByteSize_ofList_le (cs : List Char) :
    (String.ofList cs).utf8ByteSize ≤ 4 * cs.length := by
  induction cs with
  | nil => simp
  | cons c cs ih =>
    have hc := c.utf8Size_le_four
    rw [String.ofList_cons, String.utf8ByteSize_append, String.utf8ByteSize_singleton,
      List.length_cons]
    omega

/-- **Documents tell records exactly.** The document of a plain record that nests no deeper than a
reader goes is read as that record, in either layout. So for a graph with such a record, going
through its document or its file gives what going through its record gives, be it a graph or a
fault. -/
theorem GraphRecord.Plain.text_roundTrip {r : GraphRecord} (h : r.Plain)
    (hdepth : r.toJson.depth ≤ Reader.room) (l : Layout) :
    GraphRecord.parse (r.text l) = .ok r ∧
      ∀ (g : Graph) (annotated : Bool), GraphRecord.ofGraph g annotated = r →
        ((g.toText annotated l).utf8ByteSize ≤ documentLimit →
          Graph.ofText (g.toText annotated l) = r.toGraph) ∧
        ((g.toFileText annotated l).utf8ByteSize ≤ documentLimit →
          Graph.ofText (g.toFileText annotated l) = r.toGraph) := by
  obtain ⟨hparse, hparseLine⟩ := h.parse_text hdepth l
  refine ⟨hparse, fun g annotated hr => ?_⟩
  subst hr
  exact ⟨fun hsize => Graph.ofText_eq hsize hparse, fun hsize => Graph.ofText_eq hsize hparseLine⟩

/-- Names and a fragment that need every kind of escape, the largest and the least number, and side
data with values inside each other. -/
theorem text_roundTrip_escapes :
    let payload := Dict.ofList [("big", Json.number (.int 18446744073709551615)),
      ("low", .array [.number (.int (-9223372036854775808)), .number (.int 0), .null]),
      ("nested", .object [("z", .object []), ("a", .array [.array [], .bool false])])]
    let g := (((Graph.make "a \"b\"\\\n\t\u0001\u007f" {} payload).addNode Graph.root "é✓𝄞"
      (.leaf { content := some "\x08\x0c\r/ \u001f", status := .warning }) payload).addType Graph.root
      { identifier := "T", priority := -9223372036854775808, direction := .dependency }).addEdge
      ⟨⟨1⟩, ⟨1⟩, ⟨0⟩, payload⟩
    let r := GraphRecord.ofGraph g true
    (r.Plain ∧ r.toJson.depth ≤ Reader.room) ∧
      GraphRecord.parse (r.text .compact) = .ok r ∧ GraphRecord.parse (r.text .pretty) = .ok r ∧
      Graph.ofText (g.toText true .pretty) = r.toGraph ∧
      Graph.ofText (g.toFileText true .compact) = r.toGraph := by
  intro payload g r
  have h : r.Plain := by decide +kernel
  have hdepth : r.toJson.depth ≤ Reader.room := by decide +kernel
  have hsize (l : Layout) : (g.toText true l).utf8ByteSize ≤ 4 * 2000 := by
    have hlength : (r.toJson.write l 0 []).length ≤ 2000 := by cases l <;> decide +kernel
    exact Nat.le_trans (utf8ByteSize_ofList_le _) (Nat.mul_le_mul_left 4 hlength)
  have hsizeFile : (g.toFileText true .compact).utf8ByteSize ≤ documentLimit := by
    rw [Graph.toFileText, String.utf8ByteSize_append]
    exact Nat.le_trans (Nat.add_le_add_right (hsize .compact) _) (by decide)
  have hcompact := h.text_roundTrip hdepth .compact
  have hpretty := h.text_roundTrip hdepth .pretty
  exact ⟨⟨h, hdepth⟩, hcompact.1, hpretty.1,
    (hpretty.2 g true rfl).1 (Nat.le_trans (hsize .pretty) (by decide)),
    (hcompact.2 g true rfl).2 hsizeFile⟩

end PassGraph
