import PackedStruct.Data.Json
import PackedStruct.Proofs.Acceptance
import PackedStruct.Proofs.Offsets
/-!
Decoded data and its JSON view have the same shape. A path leads to the same place in both, for the
fields of a compiled struct have different names and so no member of an object replaces another one.
-/

namespace PackedStruct

namespace Json

theorem ofMembers_of_nodup {members : List (String × Json)} (h : (members.map Prod.fst).Nodup) :
    ofMembers members = .object members := by
  suffices hfold : ∀ done : List (String × Json), ((done ++ members).map Prod.fst).Nodup →
      members.foldl (fun ms m => put m.1 m.2 ms) done = done ++ members by
    exact congrArg Json.object (hfold [] h)
  clear h
  induction members with
  | nil => simp
  | cons m members ih =>
    obtain ⟨name, j⟩ := m
    intro done hnodup
    have hfresh : name ∉ done.map Prod.fst := by
      rw [List.map_append, List.map_cons, List.nodup_append] at hnodup
      exact fun hmem => hnodup.2.2 _ hmem _ List.mem_cons_self rfl
    have hrest := ih (done ++ [(name, j)]) (by rwa [← List.append_cons])
    rw [← List.append_cons] at hrest
    simp only [List.foldl_cons, put_of_not_mem hfresh, hrest]

def step? (j : Json) : Step → Option Json
  | .name field => j.member? field
  | .index i => j.item? i

/-- What stands at a path, as in decoded data. -/
def path? (j : Json) : List Step → Option Json
  | [] => some j
  | s :: ss => (j.step? s).bind (path? · ss)

end Json

namespace Data

variable {d part : Data}

/-- In no struct of the data two fields have the same name. -/
inductive Distinct : Data → Prop where
  | scalar {h v} : Distinct (.scalar h v)
  | array {h items} (hitems : ∀ d ∈ items, Distinct d) : Distinct (.array h items)
  | struct {h t fs} (hnames : (fs.map Prod.fst).Nodup) (hfields : ∀ f ∈ fs, Distinct f.2) :
      Distinct (.struct h t fs)

theorem itemsToJson_eq_map (ds : List Data) : itemsToJson ds = ds.map toJson := by
  induction ds with
  | nil => rfl
  | cons d ds ih => rw [itemsToJson, ih, List.map_cons]

theorem membersToJson_eq_map (fs : List (String × Data)) :
    membersToJson fs = fs.map fun f => (f.1, f.2.toJson) := by
  induction fs with
  | nil => rfl
  | cons f fs ih => rw [membersToJson, ih, List.map_cons]

theorem toJson_struct {hints : Hints} {t : String} {fs : List (String × Data)}
    (h : (fs.map Prod.fst).Nodup) :
    (Data.struct hints t fs).toJson = .object (fs.map fun f => (f.1, f.2.toJson)) := by
  rw [toJson, membersToJson_eq_map]
  apply Json.ofMembers_of_nodup
  simpa [Function.comp_def] using h

/-- Labels and texts stand only where nothing can be looked up. -/
theorem step?_toJson_scalar (hints : Hints) (v : Scalar) (s : Step) :
    (Data.scalar hints v).toJson.step? s = none := by
  rw [toJson]
  split
  · cases s <;> rfl
  · cases v <;> cases s <;> rfl

theorem Distinct.step?_toJson (h : d.Distinct) (s : Step) : d.toJson.step? s = (d.step? s).map toJson := by
  cases h with
  | scalar =>
    rw [step?_toJson_scalar]
    cases s <;> rfl
  | array hitems =>
    rw [toJson, itemsToJson_eq_map]
    cases s with
    | name field => rfl
    | index i => exact List.getElem?_map ..
  | struct hnames hfields =>
    rw [toJson_struct hnames]
    cases s with
    | name field => exact lookup_map ..
    | index i => rfl

theorem Distinct.step (h : d.Distinct) {s : Step} (hs : d.step? s = some part) : part.Distinct := by
  cases h with
  | scalar => cases s <;> cases hs
  | array hitems =>
    cases s with
    | name field => cases hs
    | index i => exact hitems part (List.mem_of_getElem? hs)
  | struct hnames hfields =>
    cases s with
    | name field => exact hfields _ (mem_of_lookup hs)
    | index i => cases hs

/-- A path leads to the JSON view of what it leads to in the data, or nowhere in both. -/
theorem Distinct.path?_toJson (h : d.Distinct) (p : List Step) :
    d.toJson.path? p = (d.path? p).map toJson := by
  induction p generalizing d with
  | nil => rfl
  | cons s p ih =>
    rw [Json.path?, path?, h.step?_toJson s]
    cases hs : d.step? s with
    | none => rfl
    | some part => exact ih (h.step hs)

end Data

namespace Node

variable {w : BitWidth} {e : Endian} {n m : Node}

/-- In no struct of the type two fields have the same name. -/
inductive Distinct : Node → Prop where
  | leaf {t l ds h} : Distinct (.leaf t l ds h)
  | struct {t fs ds h} (hnames : (fs.map Prod.fst).Nodup) (hfields : ∀ f ∈ fs, Distinct f.2) :
      Distinct (.struct t fs ds h)

theorem Distinct.withOuterDims (h : n.Distinct) (outer : List Nat) : (n.withOuterDims outer).Distinct := by
  cases h with
  | leaf => exact .leaf
  | struct hnames hfields => exact .struct hnames hfields

theorem Distinct.withHints (h : n.Distinct) (hints : Hints) : (n.withHints hints).Distinct := by
  cases h with
  | leaf => exact .leaf
  | struct hnames hfields => exact .struct hnames hfields

theorem Distinct.element (h : n.Distinct) : n.element.Distinct := by
  cases h with
  | leaf => exact .leaf
  | struct hnames hfields => exact .struct hnames hfields

/-- The type of the part that a step leads to. A row of characters has no parts, and fillers are none. -/
def step? (n : Node) : Step → Option Node
  | .name field => if n.dims = [] then (n.field? field).filter fun m => !m.isPadding else none
  | .index i =>
    match n.dims with
    | [] => none
    | d :: ds => if i < d ∧ ¬(n.isChar = true ∧ ds = []) then some n.element else none

def walk? (n : Node) : List Step → Option Node
  | [] => some n
  | s :: ss => (n.step? s).bind (walk? · ss)

theorem Distinct.step (h : n.Distinct) {s : Step} (hs : n.step? s = some m) : m.Distinct := by
  cases s with
  | name field =>
    rw [step?] at hs
    split at hs
    · obtain ⟨hfield, -⟩ := Option.filter_eq_some_iff.1 hs
      cases h with
      | leaf => cases hfield
      | struct hnames hfields => exact hfields _ (mem_of_lookup hfield)
    · cases hs
  | index i =>
    rw [step?] at hs
    split at hs
    · cases hs
    · split at hs
      · cases hs
        exact h.element
      · cases hs

theorem arraysAt_distinct {hints : Hints} {size : Nat} {value : List UInt8 → Data}
    (h : ∀ bytes, (value bytes).Distinct) (ds : List Nat) (bytes : List UInt8) :
    (arraysAt hints size value ds bytes).Distinct := by
  induction ds generalizing bytes with
  | nil => exact h bytes
  | cons d ds ih =>
    rw [arraysAt]
    refine .array fun item hitem => ?_
    obtain ⟨i, -, rfl⟩ := List.mem_map.1 hitem
    exact ih _

theorem charactersAt_distinct (hints : Hints) (ds : List Nat) (bytes : List UInt8) :
    (charactersAt hints ds bytes).Distinct := by
  induction ds generalizing bytes with
  | nil => exact .scalar
  | cons d ds ih =>
    cases ds with
    | nil => exact .scalar
    | cons d' ds =>
      rw [charactersAt]
      refine .array fun item hitem => ?_
      obtain ⟨i, -, rfl⟩ := List.mem_map.1 hitem
      exact ih _

theorem mem_fieldsAt {fs : List (String × Node)} {bytes : List UInt8} {f : String × Data}
    (h : f ∈ fieldsAt w e fs bytes) :
    ∃ n bytes', (f.1, n) ∈ fs ∧ n.isPadding = false ∧ f.2 = n.dataAt w e bytes' := by
  induction fs generalizing bytes with
  | nil => simp [fieldsAt] at h
  | cons g fs ih =>
    have hrest {bytes : List UInt8} (h : f ∈ fieldsAt w e fs bytes) :
        ∃ n bytes', (f.1, n) ∈ g :: fs ∧ n.isPadding = false ∧ f.2 = n.dataAt w e bytes' := by
      obtain ⟨n, bytes', hn, hf⟩ := ih h
      exact ⟨n, bytes', List.mem_cons_of_mem _ hn, hf⟩
    obtain ⟨name, n⟩ := g
    rw [fieldsAt] at h
    cases hp : n.isPadding with
    | true =>
      rw [hp, if_pos rfl] at h
      exact hrest h
    | false =>
      rw [hp, if_neg Bool.false_ne_true] at h
      rcases List.mem_cons.1 h with rfl | h
      · exact ⟨n, bytes, List.mem_cons_self, hp, rfl⟩
      · exact hrest h

theorem nodup_fieldsAt {fs : List (String × Node)} (h : (fs.map Prod.fst).Nodup) (bytes : List UInt8) :
    ((fieldsAt w e fs bytes).map Prod.fst).Nodup := by
  rw [names_fieldsAt]
  exact h.sublist (List.filter_sublist.map Prod.fst)

theorem Distinct.dataAt (h : n.Distinct) (bytes : List UInt8) : (n.dataAt w e bytes).Distinct := by
  induction h generalizing bytes with
  | @leaf t l ds hints =>
    by_cases hc : l = .primitive .char
    · subst hc
      rw [Node.dataAt]
      exact charactersAt_distinct hints ds bytes
    · rw [dataAt_leaf hc]
      exact arraysAt_distinct (fun _ => .scalar) ds bytes
  | struct hnames _ ih =>
    rw [dataAt_struct]
    refine arraysAt_distinct (fun bytes => .struct (nodup_fieldsAt hnames bytes) fun f hf => ?_) _ bytes
    obtain ⟨n, bytes', hn, -, hvalue⟩ := mem_fieldsAt hf
    rw [hvalue]
    exact ih _ hn bytes'

theorem eq_char_of_isChar (h : n.isChar = true) : ∃ t ds hints, n = .leaf t (.primitive .char) ds hints := by
  unfold isChar at h
  split at h
  · exact ⟨_, _, _, rfl⟩
  · cases h

/-- Data is a struct, an array or a scalar as its type has it; a row of characters is a scalar. -/
theorem dataAt_cases (n : Node) (bytes : List UInt8) :
    (∃ t fs hints, n = .struct t fs [] hints ∧ n.dataAt w e bytes = .struct hints t (fieldsAt w e fs bytes)) ∨
    (∃ d ds, n.dims = d :: ds ∧ ¬(n.isChar = true ∧ ds = []) ∧ n.dataAt w e bytes = .array n.hints
      ((List.range d).map fun i => n.element.dataAt w e (bytes.drop (i * n.element.exactSize w)))) ∨
    ∃ v, n.dataAt w e bytes = .scalar n.hints v := by
  cases hn : n.dims with
  | nil =>
    cases n with
    | leaf t l ds hints =>
      change ds = [] at hn
      subst hn
      by_cases hc : l = .primitive .char
      · subst hc
        exact .inr (.inr ⟨_, by rw [dataAt, charactersAt]; rfl⟩)
      · exact .inr (.inr ⟨_, by rw [dataAt_leaf hc]; rfl⟩)
    | struct t fs ds hints =>
      change ds = [] at hn
      subst hn
      exact .inl ⟨t, fs, hints, rfl, by rw [dataAt_struct, arraysAt]⟩
  | cons d ds =>
    by_cases hrow : n.isChar = true ∧ ds = []
    · obtain ⟨hchar, rfl⟩ := hrow
      obtain ⟨t, dims, hints, rfl⟩ := eq_char_of_isChar hchar
      change dims = [d] at hn
      subst hn
      exact .inr (.inr ⟨_, by rw [dataAt, charactersAt]; rfl⟩)
    · exact .inr (.inl ⟨d, ds, rfl, hrow, dataAt_array hn hrow bytes⟩)

/-- The part that a step leads to is read by the type that the step leads to. -/
theorem Distinct.step_dataAt (h : n.Distinct) {bytes : List UInt8} {s : Step} {part : Data}
    (hs : (n.dataAt w e bytes).step? s = some part) :
    ∃ m bytes', n.step? s = some m ∧ part = m.dataAt w e bytes' := by
  rcases n.dataAt_cases (w := w) (e := e) bytes with
    ⟨t, fs, hints, rfl, hdata⟩ | ⟨d, ds, hdims, hrow, hdata⟩ | ⟨v, hdata⟩
  · rw [hdata] at hs
    cases s with
    | name field =>
      cases h with
      | struct hnames hfields =>
        obtain ⟨m, bytes', hm, hp, hpart⟩ := mem_fieldsAt (mem_of_lookup hs)
        refine ⟨m, bytes', ?_, hpart⟩
        have hfield : (Node.struct t fs [] hints).field? field = some m := lookup_of_mem hnames hm
        have hdims : (Node.struct t fs [] hints).dims = [] := rfl
        rw [step?, if_pos hdims, hfield, Option.filter_some, hp]
        rfl
    | index i => cases hs
  · rw [hdata] at hs
    cases s with
    | name field => cases hs
    | index i =>
      change (List.map _ (List.range d))[i]? = some part at hs
      obtain ⟨hi, hpart⟩ := List.getElem?_eq_some_iff.1 hs
      rw [List.length_map, List.length_range] at hi
      rw [List.getElem_map] at hpart
      refine ⟨n.element, _, ?_, hpart.symm⟩
      simp only [step?, hdims, if_pos (And.intro hi hrow)]
  · rw [hdata] at hs
    cases s <;> cases hs

theorem Distinct.walk_dataAt (h : n.Distinct) {bytes : List UInt8} {p : List Step} {part : Data}
    (hp : (n.dataAt w e bytes).path? p = some part) :
    ∃ m bytes', n.walk? p = some m ∧ m.Distinct ∧ part = m.dataAt w e bytes' := by
  induction p generalizing n bytes with
  | nil =>
    cases hp
    exact ⟨n, bytes, rfl, h, rfl⟩
  | cons s p ih =>
    obtain ⟨next, hs, hp⟩ := Option.bind_eq_some_iff.1 hp
    obtain ⟨m, bytes', hm, rfl⟩ := h.step_dataAt hs
    obtain ⟨last, bytes'', hlast, hdistinct, hpart⟩ := ih (h.step hm) hp
    exact ⟨last, bytes'', Option.bind_eq_some_iff.2 ⟨m, hm, hlast⟩, hdistinct, hpart⟩

theorem eq_struct_of_dataAt {bytes : List UInt8} {hints : Hints} {t : String} {fields : List (String × Data)}
    (h : n.dataAt w e bytes = .struct hints t fields) :
    ∃ fs, n = .struct t fs [] hints ∧ fields = fieldsAt w e fs bytes := by
  rcases n.dataAt_cases (w := w) (e := e) bytes with
    ⟨t, fs, hints, rfl, hdata⟩ | ⟨d, ds, hdims, hrow, hdata⟩ | ⟨v, hdata⟩
  all_goals
    rw [h] at hdata
    cases hdata
  exact ⟨fs, rfl, rfl⟩

end Node

namespace Schema

variable {s : Schema} {name target owner : String} {n : Node}

mutual

theorem Denotes.distinct {s : Schema} {name : String} {n : Node} : s.Denotes name n → n.Distinct
  | .aliased _ _ hspec => hspec.distinct
  | .struct _ hdistinct hfields => .struct hdistinct hfields.distinct

theorem DenotesSpec.distinct {s : Schema} {spec : TypeSpec} {n : Node} : s.DenotesSpec spec n → n.Distinct
  | .scalar _ => .leaf
  | .named _ hname => hname.distinct.withOuterDims _

theorem DenotesFields.distinct {s : Schema} {owner : String} {entries : List FieldEntry}
    {fields : List (String × Node)} :
    s.DenotesFields owner entries fields → ∀ f ∈ fields, f.2.Distinct
  | .nil => by simp
  | .cons _ hspec _ hrest => List.forall_mem_cons.2 ⟨hspec.distinct.withHints _, hrest.distinct⟩

end

/-- The JSON view of what a compiled type decodes to has what the data has: along every path it is the
view of what the data has there, and each struct becomes an object with one member for each field of its
type that is no filler, in the same order. -/
theorem decode_toJson {w : BitWidth} {e : Endian} {offset : Nat} {buffer : List UInt8} {d : Data}
    (hcompile : s.compile target = .ok n) (hdecode : n.decode w e offset buffer = .ok d) :
    (∀ p, d.toJson.path? p = (d.path? p).map Data.toJson) ∧
    ∀ p hints t fields, d.path? p = some (.struct hints t fields) →
      ∃ fs, n.walk? p = some (.struct t fs [] hints) ∧
        d.toJson.path? p = some (.object (fields.map fun f => (f.1, f.2.toJson))) ∧
        fields.map Prod.fst = (fs.filter fun f => !f.2.isPadding).map Prod.fst ∧
        (fields.map Prod.fst).Nodup := by
  obtain ⟨hdenotes, -⟩ := compile_eq_ok.1 hcompile
  obtain ⟨size, -, -, rfl⟩ := Node.decode_eq_ok.1 hdecode
  have hdistinct : (n.dataAt w e (buffer.drop offset)).Distinct := hdenotes.distinct.dataAt _
  refine ⟨hdistinct.path?_toJson, fun p hints t fields hp => ?_⟩
  obtain ⟨m, bytes, hwalk, hm, hpart⟩ := hdenotes.distinct.walk_dataAt hp
  obtain ⟨fs, rfl, rfl⟩ := Node.eq_struct_of_dataAt hpart.symm
  cases hm with
  | struct hnames hfields =>
    have hnodup := Node.nodup_fieldsAt (w := w) (e := e) hnames bytes
    refine ⟨fs, hwalk, ?_, Node.names_fieldsAt fs bytes, hnodup⟩
    rw [hdistinct.path?_toJson, hp, Option.map_some, Data.toJson_struct hnodup]

/-- Entries between fillers, in an array that has labels of its own. -/
def entryList : Schema := ofList [
  ("Entry", .struct [[("kind", .record "u8" ⟨none, some [(7, "LAST")], none⟩)], [("gap", .bare "padding")],
    [("next", .bare "Entry *")]]),
  ("List", .struct [[("gap", .bare "padding[2]")], [("tag", .bare "char[2]")],
    [("entries", .record "Entry[2]" ⟨none, some [(7, "NONE")], none⟩)]])]

theorem decode_toJson_entries :
    let buffer : List UInt8 := [9, 0, 0, 0x61, 0, 1, 0, 0, 0, 0, 2, 7, 0, 0, 0, 0, 3]
    let last : List Step := [.name "entries", .index 1]
    ∃ n d, entryList.compile "List" = .ok n ∧ n.decode .w32 .big 1 buffer = .ok d ∧
      (∀ p, d.toJson.path? p = (d.path? p).map Data.toJson) ∧
      ∃ hints t fields fs, d.path? last = some (.struct hints t fields) ∧
        (fields.lookup "kind").bind Data.label? = some "LAST" ∧
        n.walk? last = some (.struct t fs [] hints) ∧
        d.toJson.path? last = some (.object (fields.map fun f => (f.1, f.2.toJson))) ∧
        fields.map Prod.fst = (fs.filter fun f => !f.2.isPadding).map Prod.fst ∧
        (fields.map Prod.fst).Nodup := by
  intro buffer last
  have hrun : (do
      let n ← entryList.compile "List"
      let d ← n.decode .w32 .big 1 buffer
      return ((d.path? last).bind fun entry => (entry.field? "kind").bind Data.label?)) = .ok (some "LAST") := by
    decide +kernel
  obtain ⟨n, hn, hrun⟩ := bind_eq_ok.1 hrun
  obtain ⟨d, hd, hrun⟩ := bind_eq_ok.1 hrun
  obtain ⟨entry, hlast, hkind⟩ := Option.bind_eq_some_iff.1 (Except.ok.inj hrun)
  obtain ⟨hpath, hstructs⟩ := decode_toJson hn hd
  cases entry with
  | scalar | array => cases hkind
  | struct hints t fields =>
    obtain ⟨fs, hwalk, hobject, hnames, hnodup⟩ := hstructs last hints t fields hlast
    exact ⟨n, d, hn, hd, hpath, hints, t, fields, fs, hlast, hkind, hwalk, hobject, hnames, hnodup⟩

end Schema

end PackedStruct
