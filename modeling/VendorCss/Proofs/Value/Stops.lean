import VendorCss.Dialect.Gradient
import VendorCss.Proofs.Component.Dividers

/-!
# The stops of a gradient

The arguments of a gradient before the first divider say where it runs: a side, an angle, or a shape and a position.
What comes from the divider on are its colours, the stops. In the prefixed form the stops are those of the standard form,
one after the other and unchanged, and what stands before them is a function of what stood there before and of the
divider (`Gradient.aim`, `Gradient.spell?_aimed`).

A gradient that starts with a component known as `to` and a divider loses both of them, and turns the sides after them.
In a list of arguments that makes sense the component is a word, and white space and a side follow it; but a string, a
comment or a function can be known as `to` as well.
-/

namespace VendorCss.Gradient

open Component

variable {name planned value : Text} {c d first : Component} {cs args lead stops rest : List Component}

/-! ## Where a gradient runs -/

/-- A word that is an angle in degrees; another component stays. -/
def inDegrees (c : Component) : Component := ((toDegrees? c.text).map fun t => withWord t c).getD c

/-- The arguments before the first divider `d` in the prefixed form. -/
def aim (name : Text) (d : Component) : List Component → List Component
  | [] => []
  | first :: rest =>
    if first.text = "to" then turnSides (rest.drop 1)
    else if namesSide first.text then turnSides (turnSides (first :: rest))
    else
      match isLinear name, sideOfAngle? (inDegrees first).text with
      | true, some side => .word (opposite side) :: turnSides rest
      | _, _ =>
        if (inDegrees first).text.contains "deg" then turnAngle [inDegrees first] ++ rest
        else
          match splitAtPosition? (first :: rest) with
          | some (shape, position) => position ++ d :: shape
          | none => first :: rest

/-- One component of a value in the prefixed form. -/
inductive Aimed (name planned : Text) : Component → Component → Prop
  /-- Only gradients of the name change. -/
  | other {c : Component} (h : ∀ before after args, c ≠ .function name before after args) : Aimed name planned c c
  /-- The stops of a gradient stay. -/
  | gradient {lead stops : List Component} (before after : Text) (hlead : ∀ c ∈ lead, c.isAnyDiv = false)
      (hstops : ∀ c ∈ stops.head?, c.isAnyDiv = true)
      (hto : ∀ first, lead = [first] → stops ≠ [] → first.text ≠ "to") :
      Aimed name planned (.function name before after (lead ++ stops))
        (.function (planned ++ name) before after (aim name (stops.head?.getD comma) lead ++ stops))
  /-- A gradient that starts with `to` and a divider loses them. -/
  | cut {first d : Component} (before after : Text) (hto : first.text = "to") (hd : d.isAnyDiv = true)
      (rest : List Component) :
      Aimed name planned (.function name before after (first :: d :: rest))
        (.function (planned ++ name) before after (turnSides rest))

/-! ## Components known by a sign -/

theorem ne_of_sign {t : Text} (h : t ∈ dividerSigns) : t ≠ "to" ∧ t ≠ "at" ∧ namesSide t = false := by
  have hall : ∀ t ∈ dividerSigns, t ≠ "to" ∧ t ≠ "at" ∧ namesSide t = false := by decide
  exact hall t h

theorem noAngle_of_sign {t : Text} (h : t ∈ dividerSigns) :
    toDegrees? t = none ∧ sideOfAngle? t = none ∧ t.contains "deg" = false := by
  have hall : ∀ t ∈ dividerSigns, toDegrees? t = none ∧ sideOfAngle? t = none ∧ t.contains "deg" = false := by decide
  exact hall t h

/-! ## Stops -/

/-- A list that is empty or starts with a divider that has one of the three signs. -/
structure AreStops (stops : List Component) : Prop where
  div : ∀ c ∈ stops.head?, c.isAnyDiv = true
  sign : ∀ c ∈ stops.head?, c.text ∈ dividerSigns

theorem isSpace_of_isAnyDiv (h : c.isAnyDiv = true) : c.isSpace = false := by
  cases c <;> first | rfl | cases h

theorem isSpace_of_fits (h : c.isSpace = true) (hfits : Fits c d) : d.isSpace = false := by
  cases c with
  | space t =>
    cases d with
    | space s => exact hfits.elim
    | _ => rfl
  | _ => cases h

theorem turnSides_append (hstops : AreStops stops) (lead : List Component) :
    turnSides (lead ++ stops) = turnSides lead ++ stops := by
  induction lead with
  | nil =>
    cases stops with
    | nil => rfl
    | cons d stops =>
      have hd := hstops.div d rfl
      cases d <;> first | rfl | cases hd
  | cons c lead ih => cases c <;> simp [turnSides, ih]

/-! ## Angles -/

theorem contains_degrees (x : Float) : (degrees x).contains "deg" = true :=
  Text.contains_iff.2 (List.suffix_append _ _).isInfix

theorem contains_of_toDegrees? {s t : Text} (h : toDegrees? s = some t) : t.contains "deg" = true := by
  have hunits {full : Float} (h : ofUnits s full = some t) : t.contains "deg" = true := by
    obtain ⟨x, -, rfl⟩ := Option.map_eq_some_iff.1 h
    exact contains_degrees _
  unfold toDegrees? at h
  split_ifs at h
  · exact hunits h
  · exact hunits h
  · exact hunits h
  · obtain ⟨x, -, rfl⟩ := Option.map_eq_some_iff.1 h
    exact contains_degrees _

/-- A component changes only to a word of degrees. -/
theorem inDegrees_cases (c : Component) : inDegrees c = c ∨ (inDegrees c).text.contains "deg" = true := by
  unfold inDegrees
  cases h : toDegrees? c.text with
  | none => exact .inl rfl
  | some t =>
    cases c with
    | word w => exact .inr (contains_of_toDegrees? h)
    | _ => exact .inl rfl

theorem inDegrees_ne_to (h : c.text ≠ "to") : (inDegrees c).text ≠ "to" := by
  rcases inDegrees_cases c with hc | hc
  · rwa [hc]
  · intro hto
    rw [hto] at hc
    exact absurd hc (by decide)

theorem turnAngle_cons (c : Component) (cs : List Component) : turnAngle (c :: cs) = turnAngle [c] ++ cs := by
  unfold turnAngle
  dsimp only
  split <;> rfl

/-! ## Positions -/

theorem hasPosition_stops (hstops : AreStops stops) (state : AtSearch) : hasPosition state stops = false := by
  cases stops with
  | nil => rfl
  | cons d stops =>
    have hd := hstops.div d rfl
    have hspace := isSpace_of_isAnyDiv hd
    obtain ⟨-, hat, -⟩ := ne_of_sign (hstops.sign d rfl)
    rw [hasPosition, if_neg (by simp [hspace]), if_neg (by simpa using fun _ => hat), if_neg (by simp [hspace]),
      if_pos hd]

theorem splitAtPosition?_cons (h : c.isSpace = false) (cs : List Component) :
    (splitAtPosition? (c :: cs)).isSome = (splitAtPosition? cs).isSome := by
  match cs with
  | [] | [_] => rfl
  | _ :: _ :: _ => simp [splitAtPosition?, h]

/-- A list without a divider, in front of one: the search for a position ends at the divider, and finds what splitting
the list finds. The three states are those of nothing, of white space, and of white space and `at` before the list. -/
theorem hasPosition_append (hlead : ∀ c ∈ lead, c.isAnyDiv = false) (hchain : lead.IsChain Fits)
    (hstops : AreStops stops) :
    hasPosition .before (lead ++ stops) = (splitAtPosition? lead).isSome ∧
      (∀ s : Component, s.isSpace = true → (∀ c ∈ lead.head?, c.isSpace = false) →
        hasPosition .at (lead ++ stops) = (splitAtPosition? (s :: lead)).isSome) ∧
      ∀ s a : Component, s.isSpace = true → a.text = "at" → a.isSpace = false →
        hasPosition .after (lead ++ stops) = (splitAtPosition? (s :: a :: lead)).isSome := by
  induction lead with
  | nil =>
    have hend (state : AtSearch) : hasPosition state stops = false := hasPosition_stops hstops state
    exact ⟨hend _, fun _ _ _ => hend _, fun _ _ _ _ _ => hend _⟩
  | cons c lead ih =>
    obtain ⟨hc, hlead⟩ := List.forall_mem_cons.1 hlead
    obtain ⟨hfits, hchain⟩ := List.isChain_cons.1 hchain
    obtain ⟨hbefore, hat, hafter⟩ := ih hlead hchain
    rw [List.cons_append]
    cases hspace : c.isSpace with
    | true =>
      have hhead : ∀ d ∈ lead.head?, d.isSpace = false := fun d hd => isSpace_of_fits hspace (hfits d hd)
      refine ⟨?_, fun _ _ hhead => ?_, fun s a hs ha _ => ?_⟩
      · rw [hasPosition, if_pos (by simp [hspace])]
        exact hat c hspace hhead
      · exact absurd (hhead c rfl) (by simp [hspace])
      · rw [hasPosition, if_neg nofun, if_neg nofun, if_pos (by simp [hspace]), splitAtPosition?,
          if_pos (by simp only [hs, ha, hspace, decide_true, Bool.and_self])]
        rfl
    | false =>
      -- the search goes on from nothing, save where `at` follows white space
      have hgoesOn {state : AtSearch} (hnot : ¬(state = .at && c.text = "at") = true) :
          hasPosition state (c :: (lead ++ stops)) = (splitAtPosition? lead).isSome := by
        rw [hasPosition, if_neg (by simp [hspace]), if_neg hnot, if_neg (by simp [hspace]), if_neg (by simp [hc]),
          hbefore]
      refine ⟨?_, fun s hs _ => ?_, fun s a hs ha hspace' => ?_⟩
      · rw [hgoesOn (by simp), splitAtPosition?_cons hspace]
      · by_cases htext : c.text = "at"
        · rw [hasPosition, if_neg nofun, if_pos (by simp only [htext, decide_true, Bool.and_self])]
          exact hafter s c hs htext hspace
        · rw [hgoesOn (by simp only [htext, decide_false, Bool.and_false, not_false_eq_true, Bool.false_eq_true]),
            ← splitAtPosition?_cons hspace]
          cases lead with
          | nil => rfl
          | cons e lead =>
            rw [splitAtPosition?, if_neg (by simp only [htext, decide_false, Bool.and_false, Bool.false_and,
              not_false_eq_true, Bool.false_eq_true]), Option.isSome_map]
      · rw [hgoesOn (by simp), ← splitAtPosition?_cons hspace, ← splitAtPosition?_cons hspace', splitAtPosition?,
          if_neg (by simp [hspace]), Option.isSome_map]

/-- The first position of a list is the first of every longer one. -/
theorem splitAtPosition?_append {shape position : List Component} (h : splitAtPosition? lead = some (shape, position))
    (cs : List Component) : splitAtPosition? (lead ++ cs) = some (shape, position ++ cs) := by
  fun_induction splitAtPosition? lead generalizing shape with
  | case1 s a s' rest hfound =>
    cases h
    exact if_pos hfound
  | case2 s a s' rest hfound ih =>
    obtain ⟨⟨shape', rest'⟩, hsplit, heq⟩ := Option.map_eq_some_iff.1 h
    cases heq
    have hlong := ih hsplit
    simp only [List.cons_append] at hlong ⊢
    rw [splitAtPosition?, if_neg hfound, hlong]
    rfl
  | case3 => cases h

theorem mem_of_splitAtPosition? {shape position : List Component} (h : splitAtPosition? lead = some (shape, position)) :
    ∀ c ∈ position, c ∈ lead := by
  fun_induction splitAtPosition? lead generalizing shape with
  | case1 s a s' rest hfound =>
    cases h
    exact fun c hc => by simp [hc]
  | case2 s a s' rest hfound ih =>
    obtain ⟨⟨shape', rest'⟩, hsplit, heq⟩ := Option.map_eq_some_iff.1 h
    cases heq
    exact fun c hc => List.mem_cons_of_mem s (ih hsplit c hc)
  | case3 => cases h

/-- A position before a divider is moved to the front, with a copy of the divider after it. -/
theorem positionFirst_append (hlead : ∀ c ∈ lead, c.isAnyDiv = false) (hstops : AreStops stops)
    {shape position : List Component} (h : splitAtPosition? lead = some (shape, position)) :
    positionFirst (lead ++ stops) = position ++ stops.head?.getD comma :: shape ++ stops := by
  have htake : (position ++ stops).takeWhile (fun c => !c.isAnyDiv) = position := by
    have hposition : ∀ c ∈ position, (!c.isAnyDiv) = true := fun c hc => by
      rw [hlead c (mem_of_splitAtPosition? h c hc), Bool.not_false]
    have hend : stops.takeWhile (fun c => !c.isAnyDiv) = [] := by
      cases stops with
      | nil => rfl
      | cons d stops => rw [List.takeWhile_cons, hstops.div d rfl, Bool.not_true, if_neg Bool.false_ne_true]
    rw [List.takeWhile_append_of_pos hposition, hend, List.append_nil]
  rw [positionFirst, splitAtPosition?_append h]
  simp only [htake, List.drop_left]

/-! ## Both forms -/

theorem toPrefixed_toStandard_of_to (h : first.text = "to") (rest : List Component) :
    toPrefixed (toStandard name (first :: rest)) = turnSides (rest.drop 1) := by
  have htowards : towards (first :: rest) = first :: rest := by rw [towards, h]; rfl
  have hdegrees : withDegrees name (first :: rest) = first :: rest := by
    have hangle : toDegrees? "to" = none ∧ sideOfAngle? "to" = none := by decide
    rw [withDegrees, h, hangle.1]
    dsimp only
    rw [h, hangle.2]
    cases isLinear name <;> rfl
  rw [toStandard, htowards, hdegrees, toPrefixed, if_pos h]
  rfl

theorem toPrefixed_toStandard_of_side (h : first.text ≠ "to") (hside : namesSide first.text = true)
    (rest : List Component) :
    toPrefixed (toStandard name (first :: rest)) = turnSides (turnSides (first :: rest)) := by
  have htowards : towards (first :: rest) = .word "to" :: .oneSpace :: turnSides (first :: rest) := by
    rw [towards, if_neg (by simp only [h, hside, decide_false, Bool.not_true, Bool.or_self, Bool.false_eq_true,
      not_false_eq_true])]
  have hto : towards (.word "to" :: .oneSpace :: turnSides (first :: rest)) =
      .word "to" :: .oneSpace :: turnSides (first :: rest) := rfl
  rw [toStandard, htowards, ← hto]
  exact toPrefixed_toStandard_of_to rfl _

theorem toStandard_of_angle (hside : namesSide first.text = false) (rest : List Component) :
    toStandard name (first :: rest) =
      match isLinear name, sideOfAngle? (inDegrees first).text with
      | true, some side => .word "to" :: .oneSpace :: .word side :: rest
      | _, _ => inDegrees first :: rest := by
  have htowards : towards (first :: rest) = first :: rest := by
    rw [towards, hside, Bool.not_false, Bool.or_true, if_pos rfl]
  rw [toStandard, htowards, withDegrees, inDegrees]
  cases toDegrees? first.text <;> rfl

/-- Stops stay as they are, and the rest is aimed. -/
theorem toPrefixed_toStandard (hlead : ∀ c ∈ lead, c.isAnyDiv = false) (hchain : lead.IsChain Fits)
    (hstops : AreStops stops) (hto : ∀ first, lead = [first] → stops ≠ [] → first.text ≠ "to") :
    toPrefixed (toStandard name (lead ++ stops)) = aim name (stops.head?.getD comma) lead ++ stops := by
  cases lead with
  | nil =>
    cases stops with
    | nil => rfl
    | cons d stops =>
      obtain ⟨hne, -, hside⟩ := ne_of_sign (hstops.sign d rfl)
      obtain ⟨hangle, hright, hdeg⟩ := noAngle_of_sign (hstops.sign d rfl)
      have hdegrees : inDegrees d = d := by rw [inDegrees, hangle]; rfl
      rw [List.nil_append, aim, List.nil_append, toStandard_of_angle hside, hdegrees, hright]
      cases isLinear name <;>
        exact (if_neg hne).trans ((if_neg (Bool.eq_false_iff.1 hdeg)).trans
          (if_neg (Bool.eq_false_iff.1 (hasPosition_stops hstops _))))
  | cons first rest =>
    rw [List.cons_append, aim]
    by_cases htext : first.text = "to"
    · rw [if_pos htext, toPrefixed_toStandard_of_to htext, ← turnSides_append hstops]
      cases rest with
      | nil =>
        obtain rfl : stops = [] := by
          by_contra hne
          exact hto first rfl hne htext
        rfl
      | cons second rest => rfl
    rw [if_neg htext]
    cases hside : namesSide first.text with
    | true =>
      rw [if_pos rfl, toPrefixed_toStandard_of_side htext hside, ← List.cons_append, turnSides_append hstops,
        turnSides_append hstops]
    | false =>
      rw [if_neg Bool.false_ne_true, toStandard_of_angle hside]
      split
      · -- a right angle is written as the side, and turned
        have hto : (Component.word "to").text = "to" := rfl
        rw [toPrefixed, if_pos hto, List.cons_append, ← turnSides_append hstops]
        rfl
      rw [toPrefixed, if_neg (inDegrees_ne_to htext)]
      cases hdeg : (inDegrees first).text.contains "deg" with
      | true => rw [if_pos rfl, if_pos rfl, turnAngle_cons, List.append_assoc]
      | false =>
        have hstays : inDegrees first = first := (inDegrees_cases first).resolve_right (Bool.eq_false_iff.1 hdeg)
        rw [hstays, if_neg Bool.false_ne_true, if_neg Bool.false_ne_true, ← List.cons_append,
          (hasPosition_append hlead hchain hstops).1]
        cases hsplit : splitAtPosition? (first :: rest) with
        | none => rfl
        | some parts => exact positionFirst_append hlead hstops hsplit

/-! ## Values -/

/-- The arguments of a function of a text: a part without dividers, and stops. -/
theorem exists_stops (hsigned : ∀ c ∈ args, c.IsSigned) :
    ∃ lead stops, args = lead ++ stops ∧ (∀ c ∈ lead, c.isAnyDiv = false) ∧ AreStops stops := by
  have hdiv : ∀ c ∈ (args.dropWhile fun c => !c.isAnyDiv).head?, c.isAnyDiv = true := fun c hc => by
    have hnot := List.head?_dropWhile_not (fun c : Component => !c.isAnyDiv) args
    rw [Option.mem_def.1 hc] at hnot
    simpa using hnot
  refine ⟨_, _, List.takeWhile_append_dropWhile.symm, fun c hc => by simpa using List.mem_takeWhile_imp hc, hdiv,
    fun c hc => ?_⟩
  have hmem := (List.dropWhile_sublist _).subset (List.mem_of_mem_head? hc)
  exact (hsigned c hmem).text_mem (hdiv c hc)

/-- A component of a text is spelled in the prefixed form. -/
theorem spellOne?_aimed (h : planned ≠ "-webkit- old") (hsigned : c.IsSigned) (hnormal : c.IsNormal) :
    ∃ d, spellOne? name planned c = some d ∧ Aimed name planned c d := by
  cases c with
  | function n before after args =>
    by_cases hn : n = name
    · subst hn
      refine ⟨_, by rw [spellOne?, if_pos rfl, if_neg h], ?_⟩
      obtain ⟨lead, stops, rfl, hlead, hstops⟩ := exists_stops hsigned.of_args
      cases hnormal with
      | function hchain =>
        by_cases hto : ∀ first, lead = [first] → stops ≠ [] → first.text ≠ "to"
        · rw [toPrefixed_toStandard hlead (List.isChain_append.1 hchain).1 hstops hto]
          exact .gradient before after hlead hstops.div hto
        · push Not at hto
          obtain ⟨first, rfl, hne, hto⟩ := hto
          obtain ⟨d, rest, rfl⟩ := List.exists_cons_of_ne_nil hne
          rw [List.singleton_append, toPrefixed_toStandard_of_to hto]
          exact .cut before after hto (hstops.div d rfl) rest
    · refine ⟨_, by rw [spellOne?, if_neg hn], .other fun _ _ _ heq => hn ?_⟩
      cases heq
      rfl
  | _ => exact ⟨_, rfl, .other nofun⟩

/-- **The stops of a gradient stay.** Every value has a prefixed form, in which every gradient has the stops of the
standard form, and what is before them depends on nothing but what was there and the divider; save in a gradient that
starts with `to` and a divider. -/
theorem spell?_aimed (h : planned ≠ "-webkit- old") (name value : Text) :
    ∃ cs, spell? name value planned = some (renderAll cs) ∧ List.Forall₂ (Aimed name planned) (ofText value) cs := by
  have hmap {ds : List Component} (hsigned : ∀ c ∈ ds, c.IsSigned) (hnormal : ∀ c ∈ ds, c.IsNormal) :
      ∃ cs, ds.mapM (spellOne? name planned) = some cs ∧ List.Forall₂ (Aimed name planned) ds cs := by
    induction ds with
    | nil => exact ⟨[], rfl, .nil⟩
    | cons c ds ih =>
      rw [List.forall_mem_cons] at hsigned hnormal
      obtain ⟨d, hd, haimed⟩ : ∃ d, spellOne? name planned c = some d ∧ Aimed name planned c d :=
        spellOne?_aimed h hsigned.1 hnormal.1
      obtain ⟨cs, hcs, hall⟩ := ih hsigned.2 hnormal.2
      exact ⟨d :: cs, by rw [List.mapM_cons, hd, hcs]; rfl, .cons haimed hall⟩
  obtain ⟨cs, hcs, hall⟩ := hmap (forall_isSigned_ofText value) (allNormal_ofText value).normal
  exact ⟨cs, by rw [spell?, hcs]; rfl, hall⟩

/-- A gradient towards a corner, and one that starts with a comment known as `to` and a divider. -/
def twoGradients : Text := "linear-gradient(to top left, red 1%, blue),linear-gradient(/*to*/, top, red)"

theorem spell?_aimed_twoGradients :
    ∃ cs, renderAll cs = "-webkit-linear-gradient(bottom right, red 1%, blue),-webkit-linear-gradient(bottom, red)" ∧
      List.Forall₂ (Aimed "linear-gradient" "-webkit-") (ofText twoGradients) cs := by
  have hnew : ("-webkit-" : Text) ≠ "-webkit- old" := by decide
  obtain ⟨cs, hspell, haimed⟩ := spell?_aimed hnew "linear-gradient" twoGradients
  have hvalue : spell? "linear-gradient" twoGradients "-webkit-" =
      some "-webkit-linear-gradient(bottom right, red 1%, blue),-webkit-linear-gradient(bottom, red)" := by
    decide +kernel
  rw [hvalue] at hspell
  exact ⟨cs, (Option.some.inj hspell).symm, haimed⟩

end VendorCss.Gradient
