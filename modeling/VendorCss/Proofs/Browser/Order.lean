import Mathlib.Data.List.Sort
import VendorCss.Proofs.Browser.Selection

/-!
# The order of targets

Targets come by the name of the browser, then by the number of the version, then by its text (`Target.Precedes`). The
order is strict, and of two targets that differ one comes first, since texts are ordered in that way by their code
points. Sorting keeps the targets and puts them into a list that increases at every step, so that none is repeated; no
other list of the same targets does (`Target.eq_sort_iff`).
-/

namespace VendorCss

/-! ## Texts -/

namespace Text

variable {s t u : Text}

theorem before_irrefl (t : Text) : before t t = false := by
  induction t with
  | nil => rfl
  | cons c t ih => simp [before, ih]

/-- Two texts that start with different characters are in the order of these, two others in that of their rests. -/
theorem before_cons_iff {c d : Char} :
    before (c :: s) (d :: t) = true ↔ c.toNat < d.toNat ∨ c = d ∧ before s t = true := by
  simp [before]

theorem before_trans (hst : before s t = true) (htu : before t u = true) : before s u = true := by
  induction s generalizing t u with
  | nil =>
    cases u with
    | nil => cases t <;> cases htu
    | cons => rfl
  | cons c s ih =>
    cases t with
    | nil => cases hst
    | cons d t =>
      cases u with
      | nil => cases htu
      | cons e u =>
        rw [before_cons_iff] at hst htu ⊢
        rcases hst with hcd | ⟨rfl, hst⟩
        · rcases htu with hde | ⟨rfl, -⟩
          · exact .inl (Nat.lt_trans hcd hde)
          · exact .inl hcd
        · rcases htu with hde | ⟨rfl, htu⟩
          · exact .inl hde
          · exact .inr ⟨rfl, ih hst htu⟩

/-- Of two texts that differ one comes first. -/
theorem before_or_before (h : s ≠ t) : before s t = true ∨ before t s = true := by
  induction s generalizing t with
  | nil =>
    cases t with
    | nil => exact absurd rfl h
    | cons => exact .inl rfl
  | cons c s ih =>
    cases t with
    | nil => exact .inr rfl
    | cons d t =>
      rw [before_cons_iff, before_cons_iff]
      by_cases hcd : c = d
      · subst hcd
        have hne : s ≠ t := fun heq => h (congrArg _ heq)
        exact (ih hne).imp (fun hst => .inr ⟨rfl, hst⟩) fun hts => .inr ⟨rfl, hts⟩
      · have hne : c.toNat ≠ d.toNat := fun heq => hcd (Char.toNat_inj.1 heq)
        rcases Nat.lt_or_gt_of_ne hne with hlt | hgt
        · exact .inl (.inl hlt)
        · exact .inr (.inl hgt)

/-- A text that is not after another one is it, or comes before it. -/
theorem notAfter_iff : notAfter s t = true ↔ s = t ∨ before s t = true := by
  rw [notAfter, Bool.not_eq_true']
  constructor
  · intro h
    by_cases heq : s = t
    · exact .inl heq
    · exact .inr ((before_or_before heq).resolve_right (by rw [h]; exact Bool.false_ne_true))
  · rintro (rfl | h)
    · exact before_irrefl s
    · rw [← Bool.not_eq_true]
      intro hts
      have hss := before_trans h hts
      rw [before_irrefl] at hss
      cases hss

end Text

/-! ## Targets -/

namespace Target

variable {s t u : Target} {ts us : List Target}

/-- One target comes before another: by the name of the browser, by the number of the version, or by its text. -/
def Precedes (s t : Target) : Prop :=
  Text.before s.name t.name = true ∨ s.name = t.name ∧
    (versionRank s.version < versionRank t.version ∨ versionRank s.version = versionRank t.version ∧
      Text.before s.version t.version = true)

theorem precedes_irrefl (t : Target) : ¬t.Precedes t := by
  simp [Precedes, Text.before_irrefl]

theorem Precedes.trans (hst : s.Precedes t) (htu : t.Precedes u) : s.Precedes u := by
  rcases hst with hst | ⟨hname, hst⟩
  · rcases htu with htu | ⟨hname, -⟩
    · exact .inl (Text.before_trans hst htu)
    · exact .inl (hname ▸ hst)
  rcases htu with htu | ⟨hname', htu⟩
  · exact .inl (hname ▸ htu)
  refine .inr ⟨hname.trans hname', ?_⟩
  rcases hst with hst | ⟨hrank, hst⟩
  · rcases htu with htu | ⟨hrank, -⟩
    · exact .inl (Nat.lt_trans hst htu)
    · exact .inl (hrank ▸ hst)
  rcases htu with htu | ⟨hrank', htu⟩
  · exact .inl (hrank ▸ htu)
  · exact .inr ⟨hrank.trans hrank', Text.before_trans hst htu⟩

/-- Of two targets that differ one comes first. -/
theorem precedes_or_precedes (h : s ≠ t) : s.Precedes t ∨ t.Precedes s := by
  by_cases hname : s.name = t.name
  · rcases Nat.lt_trichotomy (versionRank s.version) (versionRank t.version) with hlt | hrank | hgt
    · exact .inl (.inr ⟨hname, .inl hlt⟩)
    · have hversion : s.version ≠ t.version := by
        intro heq
        obtain ⟨name, version⟩ := s
        obtain ⟨name', version'⟩ := t
        exact h (congrArg₂ Target.mk hname heq)
      exact (Text.before_or_before hversion).imp (fun hst => .inr ⟨hname, .inr ⟨hrank, hst⟩⟩)
        fun hts => .inr ⟨hname.symm, .inr ⟨hrank.symm, hts⟩⟩
    · exact .inr (.inr ⟨hname.symm, .inl hgt⟩)
  · exact (Text.before_or_before hname).imp .inl .inl

theorem Precedes.asymm (hst : s.Precedes t) : ¬t.Precedes s := fun hts => precedes_irrefl s (hst.trans hts)

instance : Std.Irrefl Precedes := ⟨precedes_irrefl⟩

instance : Std.Antisymm Precedes := ⟨fun _ _ hst hts => absurd hts hst.asymm⟩

/-- The test that targets are sorted by. -/
theorem notAfter_ranked_iff : Ranked.notAfter s.ranked t.ranked = true ↔ s = t ∨ s.Precedes t := by
  obtain ⟨name, version⟩ := s
  obtain ⟨name', version'⟩ := t
  simp only [Ranked.notAfter, ranked, Precedes, Bool.or_eq_true, Bool.and_eq_true, beq_iff_eq,
    Text.notAfter_iff, Target.mk.injEq]
  constructor
  · rintro (h | ⟨hname, h | ⟨hrank, hversion | h⟩⟩)
    · exact .inr (.inl h)
    · exact .inr (.inr ⟨hname, .inl (of_decide_eq_true h)⟩)
    · exact .inl ⟨hname, hversion⟩
    · exact .inr (.inr ⟨hname, .inr ⟨hrank, h⟩⟩)
  · rintro (⟨hname, hversion⟩ | h | ⟨hname, h | ⟨hrank, h⟩⟩)
    · exact .inr ⟨hname, .inr ⟨by rw [hversion], .inl hversion⟩⟩
    · exact .inl h
    · exact .inr ⟨hname, .inl (decide_eq_true h)⟩
    · exact .inr ⟨hname, .inr ⟨hrank, .inr h⟩⟩

/-! ## Sorting -/

@[simp] theorem mem_arrange : t ∈ arrange ts ↔ t ∈ ts := by
  constructor
  · intro h
    obtain ⟨r, hr, rfl⟩ := List.mem_map.1 h
    obtain ⟨s, hs, rfl⟩ := List.mem_map.1 (List.mem_mergeSort.1 hr)
    exact hs
  · intro h
    exact List.mem_map.2 ⟨t.ranked, List.mem_mergeSort.2 (List.mem_map.2 ⟨t, h, rfl⟩), rfl⟩

@[simp] theorem mem_dedup : t ∈ dedup ts ↔ t ∈ ts := by
  refine ⟨mem_of_mem_dedup, fun h => ?_⟩
  induction ts using dedup.induct with
  | case1 => exact h
  | case2 => exact h
  | case3 s ts ih =>
    rw [dedup, if_pos rfl]
    refine ih ?_
    rcases List.mem_cons.1 h with rfl | h
    · exact List.mem_cons_self
    · exact h
  | case4 s u ts hne ih =>
    rw [dedup, if_neg hne]
    rcases List.mem_cons.1 h with rfl | h
    · exact List.mem_cons_self
    · exact List.mem_cons_of_mem _ (ih h)

@[simp] theorem mem_sort : t ∈ sort ts ↔ t ∈ ts := mem_dedup.trans mem_arrange

/-- Arranging compares targets with their ranks, each computed once. -/
theorem arrange_eq (ts : List Target) : arrange ts = ts.mergeSort fun s t => Ranked.notAfter s.ranked t.ranked := by
  have hmap : (ts.mergeSort fun s t => Ranked.notAfter s.ranked t.ranked).map ranked =
      (ts.map ranked).mergeSort Ranked.notAfter := List.map_mergeSort fun _ _ _ _ => rfl
  have hid : Ranked.target ∘ ranked = id := rfl
  rw [arrange, ← hmap, List.map_map, hid, List.map_id]

/-- Arranged targets are in order; equal ones may still stand side by side. -/
theorem pairwise_arrange (ts : List Target) : (arrange ts).Pairwise fun s t => s = t ∨ s.Precedes t := by
  rw [arrange_eq]
  refine (List.pairwise_mergeSort ?trans ?total ts).imp notAfter_ranked_iff.1
  case trans =>
    intro s t u hst htu
    rw [notAfter_ranked_iff] at hst htu ⊢
    rcases hst with rfl | hst
    · exact htu
    rcases htu with rfl | htu
    · exact .inr hst
    · exact .inr (hst.trans htu)
  case total =>
    intro s t
    rw [Bool.or_eq_true, notAfter_ranked_iff, notAfter_ranked_iff]
    by_cases heq : s = t
    · exact .inl (.inl heq)
    · exact (precedes_or_precedes heq).imp .inr .inr

/-- Of targets in order the repeats stand side by side, so that none is left. -/
theorem pairwise_dedup (h : ts.Pairwise fun s t => s = t ∨ s.Precedes t) : (dedup ts).Pairwise Precedes := by
  induction ts using dedup.induct with
  | case1 => exact List.Pairwise.nil
  | case2 => exact List.pairwise_singleton _ _
  | case3 s ts ih =>
    rw [dedup, if_pos rfl]
    exact ih (List.pairwise_cons.1 h).2
  | case4 s u ts hne ih =>
    obtain ⟨hs, htail⟩ := List.pairwise_cons.1 h
    have hsu : s.Precedes u := (hs u List.mem_cons_self).resolve_left hne
    rw [dedup, if_neg hne]
    refine List.pairwise_cons.2 ⟨fun t ht => ?_, ih htail⟩
    rcases List.mem_cons.1 (mem_dedup.1 ht) with rfl | hrest
    · exact hsu
    · rcases (List.pairwise_cons.1 htail).1 t hrest with rfl | hut
      · exact hsu
      · exact hsu.trans hut

/-- Sorted targets increase at every step. -/
theorem pairwise_sort (ts : List Target) : (sort ts).Pairwise Precedes := pairwise_dedup (pairwise_arrange ts)

/-- Targets that increase at every step are the sorted ones of any list with the same members. -/
theorem eq_sort_iff : us = sort ts ↔ us.Pairwise Precedes ∧ ∀ t, t ∈ us ↔ t ∈ ts := by
  constructor
  · rintro rfl
    exact ⟨pairwise_sort ts, fun t => mem_sort⟩
  · rintro ⟨hordered, hmem⟩
    exact hordered.eq_of_mem_iff (pairwise_sort ts) fun t => (hmem t).trans mem_sort.symm

end Target

end VendorCss
