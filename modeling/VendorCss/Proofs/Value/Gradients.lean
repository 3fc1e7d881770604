import VendorCss.Dialect.Gradient

/-!
# Gradients that are read as they were meant

A gradient is spelled by changing its components and printing them. Where the printed text is read as the components that
were meant (`Gradient.ReadsBack`), nothing is left to spell in it (`Gradient.spell?_spelled`): the name of every gradient
that was spelled is another one. Whether it is so can be computed.
-/

namespace VendorCss

/-! ## Components that are the same -/

namespace Component

mutual

/-- Two components are the same. -/
def same : Component → Component → Bool
  | word s, word t => s == t
  | space s, space t => s == t
  | div s before after, div t before' after' => s == t && before == before' && after == after'
  | string quote s, string quote' t => quote == quote' && s == t
  | comment s, comment t => s == t
  | function name before after args, function name' before' after' args' =>
    name == name' && before == before' && after == after' && sameAll args args'
  | _, _ => false

/-- Two lists of components are the same. -/
def sameAll : List Component → List Component → Bool
  | [], [] => true
  | c :: cs, d :: ds => same c d && sameAll cs ds
  | _, _ => false

end

mutual

theorem same_iff (c d : Component) : same c d = true ↔ c = d := by
  cases c <;> cases d <;> simp [same, and_assoc, sameAll_iff]

theorem sameAll_iff (cs ds : List Component) : sameAll cs ds = true ↔ cs = ds := by
  cases cs <;> cases ds <;> simp [sameAll, same_iff, sameAll_iff]

end

instance : DecidableEq Component := fun c d => decidable_of_iff _ (same_iff c d)

end Component

/-! ## Gradients -/

namespace Gradient

/-- What is written for the gradients of one name in a value is read as it was meant. -/
def ReadsBack (name planned value : Text) : Prop :=
  ∀ cs, (Component.ofText value).mapM (spellOne? name planned) = some cs → Component.ofText (Component.renderAll cs) = cs

instance (name planned value : Text) : Decidable (ReadsBack name planned value) :=
  decidable_of_iff (((Component.ofText value).mapM (spellOne? name planned)).all fun cs =>
    Component.ofText (Component.renderAll cs) = cs) (by simp [ReadsBack, Option.all_eq_true])

variable {name planned value next : Text} {c d : Component} {cs ds : List Component}

/-- A gradient that was spelled is none of its name any more. -/
theorem spellOne?_spelled (hname : name.head? ≠ some '-') (hplanned : planned.head? = some '-')
    (h : spellOne? name planned c = some d) : spellOne? name planned d = some d := by
  cases c with
  | function n before after args =>
    rw [spellOne?] at h
    split at h
    · rename_i hn
      split at h
      · obtain ⟨old, -, rfl⟩ := Option.map_eq_some_iff.1 h
        have hne : ("-webkit-gradient" : Text) ≠ name := by
          rintro rfl
          exact hname rfl
        rw [spellOne?, if_neg hne]
      · cases h
        have hne : planned ++ n ≠ name := by
          rintro rfl
          exact hname (by rw [List.head?_append, hplanned]; rfl)
        rw [spellOne?, if_neg hne]
    · rename_i hn
      cases h
      rw [spellOne?, if_neg hn]
  | _ => cases h; rfl

/-- Components that were spelled stay as they are. -/
theorem mapM_spelled (hname : name.head? ≠ some '-') (hplanned : planned.head? = some '-')
    (h : cs.mapM (spellOne? name planned) = some ds) : ds.mapM (spellOne? name planned) = some ds := by
  induction cs generalizing ds with
  | nil =>
    cases h
    rfl
  | cons c cs ih =>
    rw [List.mapM_cons] at h
    obtain ⟨d, hd, h⟩ := Option.bind_eq_some_iff.1 h
    obtain ⟨ds', hds, h⟩ := Option.bind_eq_some_iff.1 h
    cases h
    rw [List.mapM_cons, spellOne?_spelled hname hplanned hd, Option.bind_eq_bind, Option.bind_some, ih hds]
    rfl

/-- A value that is read as it was meant changes once. -/
theorem spell?_spelled (hname : name.head? ≠ some '-') (hplanned : planned.head? = some '-')
    (hreads : ReadsBack name planned value) (h : spell? name value planned = some next) :
    spell? name next planned = some next := by
  obtain ⟨cs, hcs, rfl⟩ := Option.map_eq_some_iff.1 h
  rw [spell?, hreads cs hcs, mapM_spelled hname hplanned hcs]
  rfl

end Gradient

end VendorCss
