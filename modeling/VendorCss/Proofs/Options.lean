import Mathlib.Data.List.Induction
import Mathlib.Data.List.Nodup
import VendorCss.Options
import VendorCss.Proofs.Feature

/-!
# Options read from JSON

Options that are read from JSON are, field by field, what the JSON sets the field to, and the default where it sets
nothing (`isSetBy_of_ofJson`). An object sets a field by its last member of that name, an array by the element at the
place of the field.

Fields are read one after the other, and reading one changes no other (`Field.IsRead`). Each name comes up once: repeated
keys have been reduced to the last one (`find?_lastMembers`), and an array is zipped with the names.
-/

namespace VendorCss

/-! ## Members of objects -/

namespace Json

/-- A member with another value put in its place keeps its key. -/
def withValue {α : Type} (k : Text) (x : α) (m : Text × α) : Text × α := if m.1 == k then (k, x) else m

/-- One member more: it takes the place of one with its key, or goes to the end. -/
theorem lastMembers_concat {α : Type} (ms : List (Text × α)) (k : Text) (x : α) :
    lastMembers (ms ++ [(k, x)]) =
      if (lastMembers ms).any (fun m => m.1 == k) then (lastMembers ms).map (withValue k x)
      else lastMembers ms ++ [(k, x)] := by
  rw [lastMembers, List.foldl_append]
  rfl

@[simp] theorem withValue_fst {α : Type} (k : Text) (x : α) (m : Text × α) : (withValue k x m).1 = m.1 := by
  unfold withValue
  split
  · exact (eq_of_beq ‹_›).symm
  · rfl

theorem nodup_lastMembers {α : Type} (ms : List (Text × α)) : ((lastMembers ms).map Prod.fst).Nodup := by
  induction ms using List.reverseRecOn with
  | nil => exact List.nodup_nil
  | append_singleton ms m ih =>
    obtain ⟨k, x⟩ := m
    rw [lastMembers_concat]
    split
    · rwa [List.map_map, show Prod.fst ∘ withValue k x = Prod.fst from funext (withValue_fst k x)]
    · rename_i hnew
      rw [List.map_append, List.map_singleton, ← List.concat_eq_append]
      refine ih.concat fun hk => hnew ?_
      obtain ⟨m, hm, rfl⟩ := List.mem_map.1 hk
      exact List.any_eq_true.2 ⟨m, hm, beq_self_eq_true _⟩

/-- Under each key stands what was written there last. -/
theorem find?_lastMembers {α : Type} (ms : List (Text × α)) (key : Text) :
    (lastMembers ms).find? (fun m => m.1 == key) = ms.reverse.find? fun m => m.1 == key := by
  induction ms using List.reverseRecOn with
  | nil => rfl
  | append_singleton ms m ih =>
    obtain ⟨k, x⟩ := m
    rw [lastMembers_concat, List.reverse_append, List.reverse_singleton, List.singleton_append, List.find?_cons, ← ih]
    split
    · -- the new value replaces the one that is there
      rename_i hany
      have hsame : (fun m : Text × α => m.1 == key) ∘ withValue k x = fun m => m.1 == key :=
        funext fun m => by rw [Function.comp, withValue_fst]
      rw [List.find?_map, hsame]
      by_cases hk : k = key
      · subst hk
        obtain ⟨m, hm⟩ := Option.isSome_iff_exists.1 (List.find?_isSome.2 (List.any_eq_true.1 hany))
        rw [hm, Option.map_some, withValue, if_pos (List.find?_some hm), beq_self_eq_true]
      · rw [beq_eq_false_iff_ne.2 hk]
        cases hfind : (lastMembers ms).find? fun m => m.1 == key with
        | none => rfl
        | some m =>
          have hkey := List.find?_some hfind
          rw [Option.map_some, withValue, if_neg (by simpa [eq_of_beq hkey] using Ne.symm hk)]
    · rename_i hnew
      rw [List.find?_append, List.find?_cons, List.find?_nil]
      by_cases hk : k = key
      · subst hk
        have hnone : (lastMembers ms).find? (fun m => m.1 == k) = none :=
          List.find?_eq_none.2 fun m hm hmk => hnew (List.any_eq_true.2 ⟨m, hm, hmk⟩)
        rw [hnone, beq_self_eq_true, Option.none_or]
      · rw [beq_eq_false_iff_ne.2 hk, Option.or_none]

/-- Of members, no two of one key, the one found under a key is the only one there. -/
theorem mem_iff_find? {α : Type} {ms : List (Text × α)} (h : (ms.map Prod.fst).Nodup) {k : Text} {x : α} :
    (k, x) ∈ ms ↔ ms.find? (fun m => m.1 == k) = some (k, x) := by
  refine ⟨fun hm => ?_, List.mem_of_find?_eq_some⟩
  induction ms with
  | nil => cases hm
  | cons m ms ih =>
    rw [List.map_cons, List.nodup_cons] at h
    rw [List.find?_cons]
    rcases List.mem_cons.1 hm with rfl | hm
    · rw [beq_self_eq_true]
    · have hne : (m.1 == k) = false := beq_eq_false_iff_ne.2 fun heq =>
        h.1 (List.mem_map.2 ⟨(k, x), hm, heq.symm⟩)
      rw [hne]
      exact ih h.2 hm

theorem collapseMembers_eq_map (ms : List (Text × Json)) :
    collapseMembers ms = ms.map fun (k, j) => (k, j.collapse) := by
  induction ms with
  | nil => rfl
  | cons m ms ih => rw [collapseMembers, ih, List.map_cons]

theorem collapseElements_eq_map (es : List Json) : collapseElements es = es.map collapse := by
  induction es with
  | nil => rfl
  | cons e es ih => rw [collapseElements, ih, List.map_cons]

/-! ## What collapsing leaves -/

@[simp] theorem bool?_collapse (j : Json) : j.collapse.bool? = j.bool? := by
  cases j <;> rfl

@[simp] theorem text?_collapse (j : Json) : j.collapse.text? = j.text? := by
  cases j <;> rfl

@[simp] theorem texts?_collapse (j : Json) : j.collapse.texts? = j.texts? := by
  cases j with
  | array es =>
    rw [collapse, collapseElements_eq_map, texts?, texts?, elements?, elements?]
    show (es.map collapse).mapM text? = es.mapM text?
    rw [List.mapM_map]
    exact congrArg (fun f => es.mapM f) (funext text?_collapse)
  | _ => rfl

end Json

@[simp] theorem FlexboxMode.ofJson_collapse (j : Json) : ofJson j.collapse = ofJson j := by
  cases j <;> rfl

@[simp] theorem GridMode.ofJson_collapse (j : Json) : ofJson j.collapse = ofJson j := by
  cases j <;> rfl

namespace Options

/-! ## Fields -/

/-- A field of the options: its name, how it is decoded, and where the options have it. -/
structure Field (α : Type) where
  name : Text
  decode : Json → Option α
  value : Options → α

namespace Field

def browsers : Field (List Text) := ⟨"browsers", Json.texts?, Options.browsers⟩

def flexbox : Field FlexboxMode := ⟨"flexbox", fun j => (FlexboxMode.ofJson j).toOption, Options.flexbox⟩

def grid : Field GridMode := ⟨"grid", fun j => (GridMode.ofJson j).toOption, Options.grid⟩

def supports : Field Bool := ⟨"supports", Json.bool?, Options.supports⟩

def cascade : Field Bool := ⟨"cascade", Json.bool?, Options.cascade⟩

def add : Field Bool := ⟨"add", Json.bool?, Options.add⟩

def remove : Field Bool := ⟨"remove", Json.bool?, Options.remove⟩

/-- Reading a member sets the field of its name and leaves the others; what is decoded has no key twice. -/
structure IsRead {α : Type} (f : Field α) : Prop where
  mem : f.name ∈ fieldNames
  collapse : ∀ j : Json, f.decode j.collapse = f.decode j
  same : ∀ {o o' : Options} {j : Json}, o.readField f.name j = .ok o' → f.decode j = some (f.value o')
  other : ∀ {o o' : Options} {name : Text} {j : Json}, o.readField name j = .ok o' → name ≠ f.name →
    f.value o' = f.value o

end Field

theorem decoded_eq_ok {α : Type} {x : Option α} {y : α} : decoded x = .ok y ↔ x = some y := by
  cases x <;> simp [decoded]

/-- What becomes of options when a member is read: the field of its name is set. -/
inductive Sets (o : Options) (j : Json) : (name : Text) → Options → Prop
  | browsers {v : List Text} (hv : j.texts? = some v) : Sets o j "browsers" { o with browsers := v }
  | flexbox {v : FlexboxMode} (hv : FlexboxMode.ofJson j = .ok v) : Sets o j "flexbox" { o with flexbox := v }
  | grid {v : GridMode} (hv : GridMode.ofJson j = .ok v) : Sets o j "grid" { o with grid := v }
  | supports {v : Bool} (hv : j.bool? = some v) : Sets o j "supports" { o with supports := v }
  | cascade {v : Bool} (hv : j.bool? = some v) : Sets o j "cascade" { o with cascade := v }
  | add {v : Bool} (hv : j.bool? = some v) : Sets o j "add" { o with add := v }
  | remove {v : Bool} (hv : j.bool? = some v) : Sets o j "remove" { o with remove := v }

theorem sets_of_readField {o o' : Options} {name : Text} {j : Json} (h : o.readField name j = .ok o') :
    o.Sets j name o' := by
  have hset {α : Type} {x : Except OptionsError α} {set : α → Options} {P : Prop}
      (hx : ∀ v, x = .ok v → o' = set v → P) (h : (x >>= fun v => pure (set v)) = .ok o') : P := by
    obtain ⟨v, hv, h⟩ := bind_eq_ok.1 h
    exact hx v hv (Except.ok.inj h).symm
  unfold readField at h
  split at h
  · subst name; exact hset (fun v hv ho => ho ▸ .browsers (decoded_eq_ok.1 hv)) h
  split at h
  · subst name; exact hset (fun v hv ho => ho ▸ .flexbox hv) h
  split at h
  · subst name; exact hset (fun v hv ho => ho ▸ .grid hv) h
  split at h
  · subst name; exact hset (fun v hv ho => ho ▸ .supports (decoded_eq_ok.1 hv)) h
  split at h
  · subst name; exact hset (fun v hv ho => ho ▸ .cascade (decoded_eq_ok.1 hv)) h
  split at h
  · subst name; exact hset (fun v hv ho => ho ▸ .add (decoded_eq_ok.1 hv)) h
  split at h
  · subst name; exact hset (fun v hv ho => ho ▸ .remove (decoded_eq_ok.1 hv)) h
  · cases h

namespace Field

theorem isRead_browsers : browsers.IsRead where
  mem := by decide
  collapse := Json.texts?_collapse
  same h := by
    generalize hname : browsers.name = name at h
    cases sets_of_readField h with
    | browsers hv => exact hv
    | _ => exact absurd hname (by decide)
  other h hne := by cases sets_of_readField h <;> first | rfl | exact absurd rfl hne

theorem isRead_flexbox : flexbox.IsRead where
  mem := by decide
  collapse := fun j => congrArg Except.toOption (FlexboxMode.ofJson_collapse j)
  same h := by
    generalize hname : flexbox.name = name at h
    cases sets_of_readField h with
    | flexbox hv => exact congrArg Except.toOption hv
    | _ => exact absurd hname (by decide)
  other h hne := by cases sets_of_readField h <;> first | rfl | exact absurd rfl hne

theorem isRead_grid : grid.IsRead where
  mem := by decide
  collapse := fun j => congrArg Except.toOption (GridMode.ofJson_collapse j)
  same h := by
    generalize hname : grid.name = name at h
    cases sets_of_readField h with
    | grid hv => exact congrArg Except.toOption hv
    | _ => exact absurd hname (by decide)
  other h hne := by cases sets_of_readField h <;> first | rfl | exact absurd rfl hne

theorem isRead_supports : supports.IsRead where
  mem := by decide
  collapse := Json.bool?_collapse
  same h := by
    generalize hname : supports.name = name at h
    cases sets_of_readField h with
    | supports hv => exact hv
    | _ => exact absurd hname (by decide)
  other h hne := by cases sets_of_readField h <;> first | rfl | exact absurd rfl hne

theorem isRead_cascade : cascade.IsRead where
  mem := by decide
  collapse := Json.bool?_collapse
  same h := by
    generalize hname : cascade.name = name at h
    cases sets_of_readField h with
    | cascade hv => exact hv
    | _ => exact absurd hname (by decide)
  other h hne := by cases sets_of_readField h <;> first | rfl | exact absurd rfl hne

theorem isRead_add : add.IsRead where
  mem := by decide
  collapse := Json.bool?_collapse
  same h := by
    generalize hname : add.name = name at h
    cases sets_of_readField h with
    | add hv => exact hv
    | _ => exact absurd hname (by decide)
  other h hne := by cases sets_of_readField h <;> first | rfl | exact absurd rfl hne

theorem isRead_remove : remove.IsRead where
  mem := by decide
  collapse := Json.bool?_collapse
  same h := by
    generalize hname : remove.name = name at h
    cases sets_of_readField h with
    | remove hv => exact hv
    | _ => exact absurd hname (by decide)
  other h hne := by cases sets_of_readField h <;> first | rfl | exact absurd rfl hne

variable {α : Type} {f : Field α}

/-- Members after each other, no two of one name, set the field to what the one with its name says. -/
theorem IsRead.foldlM (hf : f.IsRead) {ms : List (Text × Json)} {o o' : Options} (hnodup : (ms.map Prod.fst).Nodup)
    (h : ms.foldlM (fun o (name, j) => o.readField name j) o = .ok o') :
    (∀ j, (f.name, j) ∈ ms → f.decode j = some (f.value o')) ∧
      (f.name ∉ ms.map Prod.fst → f.value o' = f.value o) := by
  induction ms generalizing o with
  | nil =>
    obtain rfl : o = o' := Except.ok.inj h
    exact ⟨fun _ hj => (List.not_mem_nil hj).elim, fun _ => rfl⟩
  | cons m ms ih =>
    obtain ⟨name, j⟩ := m
    rw [List.foldlM_cons] at h
    obtain ⟨o₁, hread, hrest⟩ := bind_eq_ok.1 h
    rw [List.map_cons, List.nodup_cons] at hnodup
    obtain ⟨hmem, hkeep⟩ := ih hnodup.2 hrest
    refine ⟨fun j' hj' => ?_, fun hnot => ?_⟩
    · rcases List.mem_cons.1 hj' with heq | hj'
      · obtain ⟨rfl, rfl⟩ := Prod.mk.inj heq
        rw [hkeep hnodup.1]
        exact hf.same hread
      · exact hmem j' hj'
    · rw [List.map_cons, List.mem_cons, not_or] at hnot
      rw [hkeep hnot.2, hf.other hread (Ne.symm hnot.1)]

end Field

/-! ## What JSON sets a field to -/

/-- The member of an object that was written last under the name, or the element of an array at the place of the
field. -/
def setting? (name : Text) : Json → Option Json
  | .array es => es[fieldNames.idxOf name]?
  | j => j.get? name

/-- The value of a field is what the JSON sets it to, and the default where it does not set it. -/
def Field.IsSetBy {α : Type} (f : Field α) (j : Option Json) (o : Options) : Prop :=
  Json.withDefault (f.value {}) f.decode (j.bind (setting? f.name)) = some (f.value o)

/-- Every field has the value that the JSON sets it to, or its default. -/
structure IsSetBy (j : Option Json) (o : Options) : Prop where
  browsers : Field.browsers.IsSetBy j o
  flexbox : Field.flexbox.IsSetBy j o
  grid : Field.grid.IsSetBy j o
  supports : Field.supports.IsSetBy j o
  cascade : Field.cascade.IsSetBy j o
  add : Field.add.IsSetBy j o
  remove : Field.remove.IsSetBy j o

/-- Without JSON there are the defaults. -/
theorem isSetBy_none : IsSetBy none {} := ⟨rfl, rfl, rfl, rfl, rfl, rfl, rfl⟩

theorem nodup_zip {names : List Text} (hnames : names.Nodup) (es : List Json) :
    ((names.zip es).map Prod.fst).Nodup := by
  induction names generalizing es with
  | nil => simp
  | cons n names ih =>
    cases es with
    | nil => simp
    | cons e es =>
      rw [List.nodup_cons] at hnames
      rw [List.zip_cons_cons, List.map_cons, List.nodup_cons]
      refine ⟨fun hn => hnames.1 ?_, ih hnames.2 es⟩
      obtain ⟨m, hm, rfl⟩ := List.mem_map.1 hn
      exact (List.of_mem_zip hm).1

/-- Elements beside the names of their fields: the one at a place is found under the name of that place. -/
theorem mem_zip_iff {names : List Text} (hnames : names.Nodup) {name : Text} (hname : name ∈ names) {es : List Json}
    {j : Json} : (name, j) ∈ names.zip es ↔ es[names.idxOf name]? = some j := by
  induction names generalizing es with
  | nil => cases hname
  | cons n names ih =>
    rw [List.nodup_cons] at hnames
    cases es with
    | nil => simp
    | cons e es =>
      rw [List.zip_cons_cons, List.mem_cons, List.idxOf_cons]
      by_cases hn : n = name
      · subst hn
        have hnot : (n, j) ∉ names.zip es := fun h => hnames.1 (List.of_mem_zip h).1
        simp [hnot, eq_comm]
      · have hne : (n == name) = false := beq_eq_false_iff_ne.2 hn
        have hmem := (List.mem_cons.1 hname).resolve_left (Ne.symm hn)
        simp [hne, Ne.symm hn, ih hnames.2 hmem]

variable {α : Type} {f : Field α}

/-- Of members, no two of one name, the field has the value that the member found under its name says. -/
theorem Field.IsRead.withDefault (hf : f.IsRead) {ms : List (Text × Json)} (hnodup : (ms.map Prod.fst).Nodup)
    {o : Options} (h : ofFields ms = .ok o) {setting : Option Json}
    (hsetting : ∀ j, (f.name, j) ∈ ms ↔ setting.map Json.collapse = some j) :
    Json.withDefault (f.value {}) f.decode setting = some (f.value o) := by
  obtain ⟨hmem, hkeep⟩ := hf.foldlM hnodup h
  cases setting with
  | some j => exact (hf.collapse j).symm.trans (hmem _ ((hsetting _).2 rfl))
  | none =>
    refine congrArg some (hkeep fun hname => ?_).symm
    obtain ⟨m, hm, hname⟩ := List.mem_map.1 hname
    have hnone := (hsetting m.2).1 (hname ▸ hm)
    cases hnone

/-- A field that JSON is read into has the value that the JSON sets it to. -/
theorem Field.IsRead.isSetBy (hf : f.IsRead) {j : Json} {o : Options} (h : ofJson j.collapse = .ok o) :
    f.IsSetBy (some j) o := by
  cases j with
  | object ms =>
    rw [Json.collapse, ofJson] at h
    have hperm := List.mergeSort_perm (Json.lastMembers (Json.collapseMembers ms)) fun p q => Text.notAfter p.1 q.1
    have hnodup := Json.nodup_lastMembers (Json.collapseMembers ms)
    refine hf.withDefault ((hperm.map Prod.fst).nodup_iff.2 hnodup) h fun j => ?_
    rw [hperm.mem_iff, Json.mem_iff_find? hnodup, Json.find?_lastMembers, Json.collapseMembers_eq_map,
      ← List.map_reverse, List.find?_map]
    rw [show (some (Json.object ms)).bind (setting? f.name) =
      (ms.reverse.find? fun m => m.1 == f.name).map Prod.snd from rfl]
    cases hfind : ms.reverse.find? fun m => m.1 == f.name with
    | none => simp [Function.comp_def, hfind]
    | some m =>
      have hkey := List.find?_some hfind
      simp [Function.comp_def, hfind, eq_of_beq hkey]
  | array es =>
    rw [Json.collapse, ofJson] at h
    obtain ⟨o', hfields, h⟩ := bind_eq_ok.1 h
    obtain rfl : o' = o := by
      split at h
      · exact Except.ok.inj h
      · cases h
    have hnodup : ((fieldNames.zip (Json.collapseElements es)).map Prod.fst).Nodup :=
      nodup_zip (by decide) _
    refine hf.withDefault hnodup hfields fun j => ?_
    rw [mem_zip_iff (by decide) hf.mem, Json.collapseElements_eq_map, List.getElem?_map]
    rfl
  | _ => cases h

/-- Options read from JSON have the value of each field that the JSON sets it to. -/
theorem isSetBy_of_ofJson {j : Json} {o : Options} (h : ofJson j.collapse = .ok o) : IsSetBy (some j) o where
  browsers := Field.isRead_browsers.isSetBy h
  flexbox := Field.isRead_flexbox.isSetBy h
  grid := Field.isRead_grid.isSetBy h
  supports := Field.isRead_supports.isSetBy h
  cascade := Field.isRead_cascade.isSetBy h
  add := Field.isRead_add.isSetBy h
  remove := Field.isRead_remove.isSetBy h

end Options

end VendorCss
