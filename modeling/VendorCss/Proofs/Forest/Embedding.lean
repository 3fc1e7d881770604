import Mathlib.Data.Option.Defs
import VendorCss.Proofs.Forest.Basic

/-!
# One forest inside another

`Embeds R extra f g` says that `f` is `g` without some subtrees, all of whose numbers are `extra`, and that `R` relates
the nodes of one number. Read from `f` to `g` it says what may come in and what a node may become; read from `g` to `f`
it says what may go. The nodes of `f` have the same order and the same parents in both forests (`ids_filter`,
`ids_sublist`, `parentUnder_eq`). Edits are steps of this relation, and steps compose (`trans`).
-/

namespace VendorCss.Forest

/-- The first forest is the second one without some subtrees of `extra` numbers, its nodes being related by `R`. -/
inductive Embeds (R : Nat → Node → Node → Prop) (extra : Nat → Prop) : Forest → Forest → Prop
  | nil : Embeds R extra .nil .nil
  | keep {i : Nat} {n n' : Node} {k k' r r' : Forest} (hn : R i n n') (hk : Embeds R extra k k')
      (hr : Embeds R extra r r') : Embeds R extra (.cons i n k r) (.cons i n' k' r')
  | skip {i : Nat} {n : Node} {f k r : Forest} (hi : extra i) (hk : ∀ j ∈ k.ids, extra j) (hr : Embeds R extra f r) :
      Embeds R extra f (.cons i n k r)

namespace Embeds

variable {R R' R'' : Nat → Node → Node → Prop} {extra extra' : Nat → Prop} {f g h : Forest}

/-! ## Composition -/

theorem refl (hR : ∀ i n, R i n n) (f : Forest) : Embeds R extra f f := by
  induction f with
  | nil => exact .nil
  | cons i n k r ihk ihr => exact .keep (hR i n) ihk ihr

theorem mono (hR : ∀ i n n', R i n n' → R' i n n') (hfg : Embeds R extra f g) : Embeds R' extra f g := by
  induction hfg with
  | nil => exact .nil
  | keep hn _ _ ihk ihr => exact .keep (hR _ _ _ hn) ihk ihr
  | skip hi hk _ ih => exact .skip hi hk ih

/-- Every number of the larger forest is extra or one of the smaller forest. -/
theorem mem_ids (hfg : Embeds R extra f g) {j : Nat} (hj : j ∈ g.ids) : extra j ∨ j ∈ f.ids := by
  induction hfg with
  | nil => cases hj
  | keep _ _ _ ihk ihr =>
    simp only [ids, List.mem_cons, List.mem_append] at hj ⊢
    rcases hj with hj | hj | hj
    · exact .inr (.inl hj)
    · exact (ihk hj).imp_right fun hj => .inr (.inl hj)
    · exact (ihr hj).imp_right fun hj => .inr (.inr hj)
  | skip hi hk _ ih =>
    simp only [ids, List.mem_cons, List.mem_append] at hj
    rcases hj with rfl | hj | hj
    · exact .inl hi
    · exact .inl (hk _ hj)
    · exact ih hj

theorem trans (hR : ∀ i a b c, R i a b → R' i b c → R'' i a c) (he : ∀ i, extra' i → extra i)
    (hfg : Embeds R extra f g) (hgh : Embeds R' extra' g h) : Embeds R'' extra f h := by
  induction hgh generalizing f with
  | nil =>
    cases hfg
    exact .nil
  | keep hn hk hr ihk ihr =>
    cases hfg with
    | keep hn' hk' hr' => exact .keep (hR _ _ _ _ hn' hn) (ihk hk') (ihr hr')
    | skip hi hk' hr' =>
      -- the subtree goes as a whole, with what came into it
      exact .skip hi (fun j hj => (hk.mem_ids hj).elim (he j) (hk' j)) (ihr hr')
  | skip hi hk _ ih => exact .skip (he _ hi) (fun j hj => he j (hk j hj)) (ih hfg)

/-! ## Edits -/

theorem append (hfg : Embeds R extra f g) {f' g' : Forest} (hfg' : Embeds R extra f' g') :
    Embeds R extra (f ++ f') (g ++ g') := by
  induction hfg with
  | nil => exact hfg'
  | keep hn hk _ _ ihr => exact .keep hn hk ihr
  | skip hi hk _ ih => exact .skip hi hk ih

/-- A run of extra subtrees before another one. -/
theorem append_left (hnew : ∀ j ∈ f.ids, extra j) (hgh : Embeds R extra g h) : Embeds R extra g (f ++ h) := by
  induction f with
  | nil => exact hgh
  | cons i n k r _ ih =>
    simp only [ids, List.mem_cons, List.mem_append] at hnew
    exact .skip (hnew i (.inl rfl)) (fun j hj => hnew j (.inr (.inl hj))) (ih fun j hj => hnew j (.inr (.inr hj)))

theorem insertBefore (hR : ∀ i n, R i n n) {new : Forest} (hnew : ∀ j ∈ new.ids, extra j) (id : Nat) (f : Forest) :
    Embeds R extra f (insertBefore id new f) := by
  induction f with
  | nil => exact .nil
  | cons i n k r ihk ihr =>
    rw [Forest.insertBefore]
    split
    · exact append_left hnew (refl hR _)
    · exact .keep (hR i n) ihk ihr

/-- A run of extra subtrees after another one. -/
theorem append_right (hR : ∀ i n, R i n n) {new : Forest} (hnew : ∀ j ∈ new.ids, extra j) (f : Forest) :
    Embeds R extra f (f ++ new) := by
  induction f with
  | nil =>
    have hnil : Embeds R extra Forest.nil (new ++ Forest.nil) := append_left hnew .nil
    rwa [append_nil] at hnil
  | cons i n k r _ ih => exact .keep (hR i n) (refl hR k) ih

theorem insertAfter (hR : ∀ i n, R i n n) {new : Forest} (hnew : ∀ j ∈ new.ids, extra j) (id : Nat) (f : Forest) :
    Embeds R extra f (insertAfter id new f) := by
  induction f with
  | nil => exact .nil
  | cons i n k r ihk ihr =>
    rw [Forest.insertAfter]
    split
    · exact .keep (hR i n) (refl hR k) (append_left hnew (refl hR r))
    · exact .keep (hR i n) ihk ihr

theorem appendTo (hR : ∀ i n, R i n n) {new : Forest} (hnew : ∀ j ∈ new.ids, extra j) (id : Nat) (f : Forest) :
    Embeds R extra f (appendTo id new f) := by
  induction f with
  | nil => exact .nil
  | cons i n k r ihk ihr =>
    rw [Forest.appendTo]
    split
    · exact .keep (hR i n) (append_right hR hnew k) (refl hR r)
    · exact .keep (hR i n) ihk ihr

theorem prependTo (hR : ∀ i n, R i n n) {new : Forest} (hnew : ∀ j ∈ new.ids, extra j) (id : Nat) (f : Forest) :
    Embeds R extra f (prependTo id new f) := by
  induction f with
  | nil => exact .nil
  | cons i n k r ihk ihr =>
    rw [Forest.prependTo]
    split
    · exact .keep (hR i n) (append_left hnew (refl hR k)) (refl hR r)
    · exact .keep (hR i n) ihk ihr

theorem modify (hR : ∀ i n, R i n n) {id : Nat} {edit : Node → Node} {f : Forest}
    (h : ∀ n, (id, n) ∈ f.nodes → R id n (edit n)) : Embeds R extra f (f.modify id edit) := by
  induction f with
  | nil => exact .nil
  | cons i n k r ihk ihr =>
    rw [Forest.modify]
    split
    · rename_i hi
      exact .keep (hi ▸ h n (by rw [hi]; exact List.mem_cons_self)) (refl hR _) (refl hR _)
    · exact .keep (hR i n) (ihk fun m hm => h m (List.mem_cons_of_mem _ (List.mem_append_left _ hm)))
        (ihr fun m hm => h m (List.mem_cons_of_mem _ (List.mem_append_right _ hm)))

theorem flip_modify (hR : ∀ i n, R i n n) {id : Nat} {edit : Node → Node} {f : Forest}
    (h : ∀ n, (id, n) ∈ f.nodes → R id (edit n) n) : Embeds R extra (f.modify id edit) f := by
  induction f with
  | nil => exact .nil
  | cons i n k r ihk ihr =>
    rw [Forest.modify]
    split
    · rename_i hi
      exact .keep (hi ▸ h n (by rw [hi]; exact List.mem_cons_self)) (refl hR _) (refl hR _)
    · exact .keep (hR i n) (ihk fun m hm => h m (List.mem_cons_of_mem _ (List.mem_append_left _ hm)))
        (ihr fun m hm => h m (List.mem_cons_of_mem _ (List.mem_append_right _ hm)))

theorem erase (hR : ∀ i n, R i n n) (id : Nat) (f : Forest) : Embeds R (fun _ => True) (f.erase id) f := by
  induction f with
  | nil => exact .nil
  | cons i n k r ihk ihr =>
    rw [Forest.erase]
    split
    · exact .skip trivial (fun _ _ => trivial) (refl hR _)
    · exact .keep (hR i n) ihk ihr

/-! ## What is seen of it -/

theorem ids_sublist (hfg : Embeds R extra f g) : f.ids.Sublist g.ids := by
  induction hfg with
  | nil => exact .slnil
  | keep _ _ _ ihk ihr => exact (ihk.append ihr).cons_cons _
  | skip _ _ _ ih => exact (ih.trans (List.sublist_append_right _ _)).cons _

/-- The numbers of the smaller forest are those of the larger one that are not extra. -/
theorem ids_filter (hfg : Embeds R extra f g) {old : Nat → Bool} (hold : ∀ j, extra j → old j = false)
    (hf : ∀ j ∈ f.ids, old j = true) : g.ids.filter old = f.ids := by
  induction hfg with
  | nil => rfl
  | @keep i _ _ k _ r _ _ _ _ ihk ihr =>
    simp only [ids, List.mem_cons, List.mem_append] at hf
    have hi : old i = true := hf i (.inl rfl)
    simp only [ids, List.filter_cons, hi, ↓reduceIte, List.filter_append]
    rw [ihk fun j hj => hf j (.inr (.inl hj)), ihr fun j hj => hf j (.inr (.inr hj))]
  | @skip i _ _ k _ hi hk _ ih =>
    have hk' : k.ids.filter old = [] := List.filter_eq_nil_iff.2 fun j hj => by simp [hold j (hk j hj)]
    simp [ids, hold i hi, List.filter_append, hk', ih hf]

/-- A node that is not extra has one parent in both forests. -/
theorem parentUnder_eq (hfg : Embeds R extra f g) {id : Nat} (hid : ¬extra id) (above : Option Nat) :
    g.parentUnder id above = f.parentUnder id above := by
  induction hfg generalizing above with
  | nil => rfl
  | keep _ _ _ ihk ihr => simp only [parentUnder, ihk, ihr]
  | @skip i _ _ k _ hi hk _ ih =>
    have hne : i ≠ id := fun heq => hid (heq ▸ hi)
    rw [parentUnder, if_neg hne, parentUnder_eq_none (fun hmem => hid (hk id hmem)), Option.none_or, ih]

/-- A node of the run itself is one of the larger run. -/
theorem exists_mem_topNodes (hfg : Embeds R extra f g) {x : Nat × Node} (hx : x ∈ f.topNodes) :
    ∃ n, (x.1, n) ∈ g.topNodes ∧ R x.1 x.2 n := by
  induction hfg with
  | nil => cases hx
  | keep hn _ _ _ ihr =>
    rcases List.mem_cons.1 hx with rfl | hx
    · exact ⟨_, List.mem_cons_self, hn⟩
    · obtain ⟨n, hmem, hrel⟩ := ihr hx
      exact ⟨n, List.mem_cons_of_mem _ hmem, hrel⟩
  | skip _ _ _ ih =>
    obtain ⟨n, hmem, hrel⟩ := ih hx
    exact ⟨n, List.mem_cons_of_mem _ hmem, hrel⟩

/-- Two answers of a lookup: both find nothing, or they find related nodes and children. -/
def SameFind (R : Nat → Node → Node → Prop) (extra : Nat → Prop) (id : Nat) :
    Option (Node × Forest) → Option (Node × Forest) → Prop :=
  Option.Rel fun x y => R id x.1 y.1 ∧ Embeds R extra x.2 y.2

theorem SameFind.or {id : Nat} {a b c d : Option (Node × Forest)} (hab : SameFind R extra id a b)
    (hcd : SameFind R extra id c d) : SameFind R extra id (a.or c) (b.or d) := by
  cases hab with
  | none => exact hcd
  | some hxy => exact .some hxy

theorem find?_rel (hfg : Embeds R extra f g) {id : Nat} (hid : ¬extra id) :
    SameFind R extra id (f.find? id) (g.find? id) := by
  induction hfg with
  | nil => exact .none
  | @keep i _ _ _ _ _ _ hn hk _ ihk ihr =>
    simp only [find?]
    split
    · rename_i hi
      exact .some ⟨hi ▸ hn, hk⟩
    · exact ihk.or ihr
  | @skip i _ _ k _ hi hk _ ih =>
    have hne : i ≠ id := fun heq => hid (heq ▸ hi)
    rw [find?, if_neg hne, find?_eq_none fun hmem => hid (hk id hmem), Option.none_or]
    exact ih

/-! ## Forests of distinct numbers -/

/-- Where a number of the larger forest that is kept stands in the smaller one, nothing else has it. -/
theorem avoid {kept : Nat → Prop} (hfg : Embeds R extra f g) (hnodup : g.ids.Nodup)
    (hkept : ∀ j ∈ g.ids, kept j → j ∈ f.ids) : Embeds R (fun j => ¬kept j) f g := by
  induction hfg with
  | nil => exact .nil
  | @keep i _ _ k k' r r' hn hk hr ihk ihr =>
    simp only [ids, List.nodup_cons, List.mem_append, not_or, List.nodup_append] at hnodup
    obtain ⟨⟨hik, hir⟩, hnk, hnr, hdisj⟩ := hnodup
    simp only [ids, List.mem_cons, List.mem_append] at hkept
    refine .keep hn (ihk hnk fun j hj hjk => ?_) (ihr hnr fun j hj hjk => ?_)
    · rcases hkept j (.inr (.inl hj)) hjk with rfl | hmem | hmem
      · exact absurd hj hik
      · exact hmem
      · exact absurd rfl (hdisj j hj j (hr.ids_sublist.mem hmem))
    · rcases hkept j (.inr (.inr hj)) hjk with rfl | hmem | hmem
      · exact absurd hj hir
      · exact absurd rfl (hdisj j (hk.ids_sublist.mem hmem) j hj)
      · exact hmem
  | @skip i _ _ k r _ _ hr ih =>
    simp only [ids, List.nodup_cons, List.mem_append, not_or, List.nodup_append] at hnodup
    obtain ⟨⟨hik, hir⟩, hnk, hnr, hdisj⟩ := hnodup
    simp only [ids, List.mem_cons, List.mem_append] at hkept
    refine .skip (fun hki => ?_) (fun j hj hjk => ?_) (ih hnr fun j hj hjk => hkept j (.inr (.inr hj)) hjk)
    · exact hir (hr.ids_sublist.mem (hkept i (.inl rfl) hki))
    · exact hdisj j hj j (hr.ids_sublist.mem (hkept j (.inr (.inl hj)) hjk)) rfl

/-- What goes from a forest of distinct numbers has none of the numbers that stay. -/
theorem notMem (hfg : Embeds R extra f g) (hnodup : g.ids.Nodup) : Embeds R (fun j => ¬j ∈ f.ids) f g :=
  hfg.avoid hnodup fun _ _ hj => hj

end Embeds

end VendorCss.Forest
