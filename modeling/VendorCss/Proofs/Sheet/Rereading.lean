import VendorCss.Prefixing
import VendorCss.Proofs.Sheet.Silence

/-!
# Reading what was printed

A printed sheet is read as the same sheet (`parse_render_parse`). The outline of the text says where the two readings
meet: at every token that stands between statements or ends one. In between a statement is read, which has lost its
loose blanks when it was printed; its tokens stay up to words and blanks at the end (`tokens_rejoined`), and how words
and blanks are cut is the same to the reader as soon as a statement has begun (`foldl_begins`).

Two kinds of declarations do not come back: one that ends in a backslash, which takes the semicolon where it took a blank
before, and one of blanks alone, of which nothing is left.
-/

namespace VendorCss

/-- Every block, comment and string of a text is closed. -/
structure Text.IsWhole (t : Text) : Prop where
  blocks : (Outline.atEnd t).depth = 0
  comments : ∀ x ∈ tokens t, x.isOpenComment = false
  strings : ∀ x ∈ tokens t, x.isBroken = false

/-- Something is left of a stretch without its loose blanks, and no backslash at its end has lost the blank that it
escaped. -/
def Stretch.IsSound (s : Stretch) : Prop := s.loose ≠ [] → s.kept ≠ [] ∧ Token.opensEscape false s.kept = false

instance (s : Stretch) : Decidable s.IsSound := inferInstanceAs (Decidable (_ → _))

namespace Outline

/-- A declaration is the same without its loose blanks, unless nothing of it is left. -/
theorem node_ended {text : Text} (hne : (ended text).kept ≠ []) (hl : (ended text).loose ≠ []) :
    Statement.node text false = Statement.node (ended text).kept false := by
  have hnode {t : Text} (ht : ∀ rest, t ≠ '@' :: rest) : Statement.node t false = Statement.declaration t.trimEnd := by
    unfold Statement.node
    split
    · exact absurd rfl (ht _)
    · rfl
  by_cases hat : ∃ rest, text = '@' :: rest
  · obtain ⟨rest, rfl⟩ := hat
    exact absurd rfl hl
  · have hat : ∀ rest, text ≠ '@' :: rest := fun rest hr => hat ⟨rest, hr⟩
    rw [ended_of_ne hat] at hne ⊢
    have hkept : ∀ rest, text.trimEnd ≠ '@' :: rest := by
      intro rest hr
      have htext := Text.trimEnd_append_trailingBlanks text
      rw [hr] at htext
      exact hat _ htext.symm
    rw [hnode hat, hnode hkept, Text.trimEnd_trimEnd]

theorem isBlank_of_mem_loose (text : Text) : ∀ c ∈ (ended text).loose, isBlank c = true := by
  unfold ended
  split
  · exact fun c hc => absurd hc List.not_mem_nil
  · intro c hc
    exact List.mem_takeWhile_imp (List.mem_reverse.1 hc)

/-- A statement with the text `text` that the token `t` ends, cut into what is printed of it and the blanks that go. -/
structure Trimmed (t : Token) (text k b : Text) : Prop where
  text_eq : k ++ b = text
  blank : ∀ c ∈ b, isBlank c = true
  ne_nil : b ≠ [] → k ≠ []
  closed : b ≠ [] → Token.opensEscape false k = false
  semicolon : b ≠ [] → t.kind = .semicolon
  node : b ≠ [] → Statement.node text false = Statement.node k false

/-- A token that ends a statement trims it. -/
theorem exists_trimmed {ss : List Stretch} {t : Token} {text : Text} {d : Char} (hsound : ∀ s ∈ ss, s.IsSound)
    (h : ss = [⟨text ++ [d], []⟩] ∨ (t.kind = .semicolon ∧ ss = [ended text, ⟨[d], []⟩])) :
    ∃ k b, Trimmed t text k b ∧ ss.flatMap Stretch.kept = k ++ [d] := by
  rcases h with rfl | ⟨hkind, rfl⟩
  · refine ⟨text, [], ⟨List.append_nil _, fun c hc => absurd hc List.not_mem_nil, ?_, ?_, ?_, ?_⟩, by simp⟩
    all_goals exact fun hne => absurd rfl hne
  · have hended := hsound _ List.mem_cons_self
    exact ⟨(ended text).kept, (ended text).loose, ⟨text_ended text, isBlank_of_mem_loose text,
      fun hne => (hended hne).1, fun hne => (hended hne).2, fun _ => hkind,
      fun hne => node_ended (hended hne).1 hne⟩, by simp⟩

/-- The kept parts start as the stretches do, if no stretch is lost. -/
theorem head?_flatMap_kept {ss : List Stretch} (h : ∀ s ∈ ss, s.IsSound) :
    (ss.flatMap Stretch.kept).head? = (ss.flatMap Stretch.text).head? := by
  induction ss with
  | nil => rfl
  | cons s ss ih =>
    rw [List.forall_mem_cons] at h
    rw [List.flatMap_cons, List.flatMap_cons, Stretch.text]
    by_cases hk : s.kept = []
    · have hl : s.loose = [] := by
        by_contra hl
        exact (h.1 hl).1 hk
      rw [hk, hl, List.nil_append, List.nil_append, List.nil_append, ih h.2]
    · rw [List.head?_append_of_ne_nil _ hk, List.append_assoc, List.head?_append_of_ne_nil _ hk]

end Outline

namespace SheetReader

variable {r r' : SheetReader}

/-- A statement that has lost its loose blanks is begun again, with the rest of its text. -/
theorem foldl_rejoined (h : r.unplaced = r'.unplaced) (hs : r.frame.statement = none)
    (hk : r.skipping = []) {xs ps rest zs : List Token} {k : Text} (hsilent : Outline.Silent r.outline xs)
    (hend : (r.outline.after xs).skipping = []) (hjoin : Token.Rejoined xs k ps rest zs) (hne : k ≠ []) :
    ((ps ++ zs).foldl step r').unplaced = (r.saying k []).unplaced := by
  obtain ⟨hparts, htext, hplain, hhead⟩ := hjoin
  rw [List.forall_mem_append] at hplain
  rw [hparts] at hsilent hend
  obtain ⟨hps, hrest⟩ := hsilent.of_append
  have hskipping : (r.outline.after ps).skipping = [] := by
    rw [Outline.after_append, hrest.skipping_plain hplain.1] at hend
    exact hend
  have hbegun : (r.outline.after ps).statement = none → ∀ t ∈ zs.head?, t.kind = .word := by
    intro hnone t ht
    have hnil : ps = [] := by
      by_contra hne
      rw [hps.after_eq hne] at hnone
      cases hnone
    subst hnil
    have hkind := hhead hne
    rw [List.nil_append, ht, hparts, List.nil_append] at hkind
    obtain ⟨u, hu, hukind⟩ := Option.map_eq_some_iff.1 hkind.symm
    cases hrest with
    | nil => cases hu
    | cons head tail =>
      obtain rfl := Option.some.inj hu
      have hblank := Outline.ne_blank_of_silent head hk (by rw [outline, hs]; rfl)
      rw [← hukind]
      exact TokenKind.eq_word_of_isPlain (hplain.1 _ List.mem_cons_self) hblank
  obtain ⟨hzs, hlast⟩ := Outline.silent_plain hplain.2 hskipping hbegun
  have hsay : ps ++ zs ≠ [] := by
    intro hnil
    rw [hnil] at htext
    exact hne htext.symm
  rw [unplaced_foldl h.symm, foldl_begins hs hk (hps.append hzs) hsay, htext, Outline.after_append, hlast]

/-- The tokens of a trimmed statement, before its end `d` and whatever follows. -/
theorem tokens_trimmed {v : Token} {xs vs : List Token} {rest k b : Text} {d : Char}
    (hd : Token.isDivider d = true) (htext : v.text = [d]) (hus : tokens rest = xs ++ v :: vs)
    (hbroken : ∀ x ∈ xs, x.isBroken = false) (htrim : Outline.Trimmed v (xs.flatMap Token.text) k b) (rest' : Text) :
    ∃ ps tail zs, Token.Rejoined xs k ps tail zs ∧ tokens (k ++ [d] ++ rest') = ps ++ zs ++ v :: tokens rest' := by
  obtain ⟨kind, hkind⟩ := Token.tokens_divider hd
  have hvvs : tokens ((v :: vs).flatMap Token.text) = v :: vs := tokens_suffix hus
  rw [List.flatMap_cons, htext, List.singleton_append] at hvvs
  have hall : k ++ (b ++ d :: vs.flatMap Token.text) = rest := by
    rw [← tokens_text rest, hus, List.flatMap_append, List.flatMap_cons, htext, ← List.append_assoc, htrim.text_eq]
    rfl
  have hrest : tokens (k ++ (b ++ d :: vs.flatMap Token.text)) = xs ++ tokens (d :: vs.flatMap Token.text) := by
    rw [hall, hvvs, hus]
  have hopen : Token.opensEscape false k = false := by
    by_cases hb : b = []
    · have hk : xs.flatMap Token.text = k := by rw [← htrim.text_eq, hb, List.append_nil]
      rw [hb] at hrest
      exact Token.opensEscape_of_tokens hd hk hrest
    · exact htrim.closed hb
  obtain ⟨ps, tail, zs, hjoin, htokens⟩ := Token.tokens_rejoined (y := d :: rest') htrim.blank hd ⟨d, rest', rfl, hd⟩
    hopen hbroken htrim.text_eq.symm hrest
  refine ⟨ps, tail, zs, hjoin, ?_⟩
  rw [hkind] at hvvs
  rw [List.append_assoc, List.singleton_append, htokens, hkind, (List.cons.inj hvvs).1]

/-- A trimmed statement and what ends it are read as the whole one was. -/
theorem foldl_trimmed (h : r.unplaced = r'.unplaced) (hs : r.frame.statement = none) (hk : r.skipping = []) {v : Token}
    {xs ps tail zs : List Token} {t k b : Text} {ys : List Token} (hxs : tokens t = xs ++ ys)
    (hsilent : Outline.Silent r.outline xs) (hend : (r.outline.after xs).skipping = [])
    (htrim : Outline.Trimmed v (xs.flatMap Token.text) k b) (hjoin : Token.Rejoined xs k ps tail zs)
    {t' : Text} {ys' : List Token} (hzs : tokens t' = ps ++ zs ++ ys') :
    ((xs.foldl step r).step v).unplaced = (((ps ++ zs).foldl step r').step v).unplaced := by
  by_cases hne : xs = []
  · subst hne
    have hnil : ps ++ zs = [] := by
      rw [← flatMap_text_eq_nil hzs, hjoin.text]
      exact (List.append_eq_nil_iff.1 htrim.text_eq).1
    rw [hnil]
    exact step_congr h v
  · have hkne : k ≠ [] := by
      by_cases hb : b = []
      · have hk : k = xs.flatMap Token.text := by rw [← htrim.text_eq, hb, List.append_nil]
        rw [hk, Ne, flatMap_text_eq_nil hxs]
        exact hne
      · exact htrim.ne_nil hb
    have hold := foldl_begins hs hk hsilent hne
    rw [hend] at hold
    have hnew := foldl_rejoined h hs hk hsilent hend hjoin hkne
    refine (step_congr hold v).trans (Eq.trans ?_ (step_congr hnew v).symm)
    by_cases hb : b = []
    · rw [← htrim.text_eq, hb, List.append_nil]
    · exact step_ends (htrim.semicolon hb) (htrim.node hb)

/-- Between statements the rest of a text is read as what is kept of it is read. The induction is on the tokens up to the
next one that ends a stretch. -/
theorem foldl_reprinted {us : List Token} {rest : Text} (hus : tokens rest = us)
    (hsteady : r.IsSteady) (h : r.unplaced = r'.unplaced) (hs : r.frame.statement = none) (hk : r.skipping = [])
    (hbroken : ∀ x ∈ us, x.isBroken = false) (hcomment : ∀ x ∈ us, x.isOpenComment = false)
    (hsound : ∀ s ∈ (r.outline.run us).1, s.IsSound) :
    ((tokens ((r.outline.run us).1.flatMap Stretch.kept)).foldl step r').unplaced = (us.foldl step r).unplaced := by
  induction hn : us.length using Nat.strong_induction_on generalizing us rest r r' with
  | _ n ih =>
  have hbegun : r.outline.begun = [] := by simp [outline, Outline.begun, hs]
  have hspelled := hus ▸ tokens_isSpelled rest
  rcases Outline.exists_speaking r.outline us with hsilent | ⟨xs, v, vs, rfl, hsilent, hspeaks⟩
  · -- the last statement of the text is printed as it stands
    have hrun := hsilent.run_append []
    rw [List.append_nil] at hrun
    have htext : (r.outline.after us).begun = rest := by
      rw [hsilent.begun_after, hbegun, List.nil_append, ← hus, tokens_text]
    rw [hrun, Outline.run, List.flatMap_singleton, htext, hus]
    exact unplaced_foldl h.symm us
  · rw [List.forall_mem_append, List.forall_mem_cons] at hspelled hcomment hbroken
    obtain ⟨hxs, hsteady₁⟩ := hsteady.foldl hspelled.1 hcomment.1
    obtain ⟨hv, hsteady₂⟩ := hsteady₁.step hspelled.2.1 hcomment.2.1
    rw [hxs] at hv
    obtain ⟨hend, hstatement, hskipping, hcase⟩ := Outline.step_of_speaking hspelled.2.1 hspeaks
    rw [← hv] at hstatement hskipping
    have hs₂ : ((xs.foldl step r).step v).frame.statement = none := Option.map_eq_none_iff.1 hstatement
    have hvvs : tokens ((v :: vs).flatMap Token.text) = v :: vs := tokens_suffix hus
    have hvs : tokens (vs.flatMap Token.text) = vs := @tokens_suffix _ [v] _ hvvs
    rw [hsilent.run_append, Outline.run_cons, ← hv] at hsound ⊢
    rw [List.forall_mem_append] at hsound
    rw [List.flatMap_append]
    have hnext {r'' : SheetReader} (hr : ((xs.foldl step r).step v).unplaced = r''.unplaced) :=
      ih vs.length (by rw [← hn, List.length_append, List.length_cons]; omega) hvs hsteady₂ hr hs₂ hskipping
        hbroken.2.2 hcomment.2.2 hsound.2 rfl
    have hhead : ((((xs.foldl step r).step v).outline.run vs).1.flatMap Stretch.kept).head? =
        (vs.flatMap Token.text).head? := by
      rw [Outline.head?_flatMap_kept hsound.2, Outline.run_text, Outline.begun, hstatement]
      rfl
    generalize (((xs.foldl step r).step v).outline.run vs).1.flatMap Stretch.kept = rest' at hnext hhead ⊢
    -- the second reader comes to the same place with the tokens up to `v`
    suffices hys : ∃ ys,
        tokens (((r.outline.after xs).step v).1.flatMap Stretch.kept ++ rest') = ys ++ v :: tokens rest' ∧
          ((xs.foldl step r).step v).unplaced = ((ys.foldl step r').step v).unplaced by
      obtain ⟨ys, hys, hr⟩ := hys
      rw [hys, List.foldl_append, List.foldl_cons, List.foldl_append, List.foldl_cons]
      exact hnext hr
    rcases hcase with ⟨hnone, hkind, hstretch⟩ | ⟨d, hd, htext, hstretch⟩
    · -- white space or a comment between statements
      obtain rfl : xs = [] := by
        by_contra hne
        rw [hsilent.after_eq hne] at hnone
        cases hnone
      refine ⟨[], ?_, step_congr h v⟩
      rw [hstretch, List.flatMap_singleton]
      refine Token.tokens_stays (hvvs.trans (congrArg _ hvs.symm)) ?_ hhead
      exact hkind.imp_right (Exists.imp fun inside hinside => ⟨hinside, hcomment.2.1⟩)
    · -- a statement that `d` ends
      rw [hsilent.begun_after, hbegun, List.nil_append] at hstretch
      obtain ⟨k, b, htrim, hkept⟩ := Outline.exists_trimmed (t := v) hsound.1
        (hstretch.imp_right fun h => ⟨h.1, h.2.2⟩)
      obtain ⟨ps, tail, zs, hjoin, htokens⟩ := tokens_trimmed hd htext hus hbroken.1 htrim rest'
      rw [hkept]
      exact ⟨ps ++ zs, htokens, foldl_trimmed h hs hk hus hsilent hend htrim hjoin htokens⟩

end SheetReader

/-! ## Whole sheets -/

/-- Without an open comment the outline ends in none. -/
theorem Outline.openComment_run {o : Outline} {ts : List Token} (ho : o.openComment = false)
    (h : ∀ x ∈ ts, x.isOpenComment = false) : (o.run ts).2.openComment = false := by
  induction ts generalizing o with
  | nil => exact ho
  | cons t ts ih =>
    rw [List.forall_mem_cons] at h
    refine ih (Bool.eq_false_iff.2 fun hopen => ?_) h.2
    rw [isOpenComment_of_step hopen] at h
    cases h.1

/-- A pass that may neither add nor remove leaves the sheet. -/
theorem Prefixer.run_of_off {x : Prefixer} (hadd : x.rules.options.add = false)
    (hremove : x.rules.options.remove = false) (s : Sheet) : (x.run s).sheet = s := by
  have hstart : (x.start s).sheet = s := by
    unfold start
    dsimp only
    split <;> rfl
  rw [run, hadd, hremove]
  exact hstart

/-- Printing a sheet and reading it again gives the same sheet: the same nodes with the same names, selectors,
properties, values and flags, in the same order and nesting, with the same spacing; only positions move. So does
processing where nothing is to be added or removed. -/
theorem parse_render_parse (t : Text) (hwhole : t.IsWhole) (hsound : ∀ s ∈ Outline.stretches t, s.IsSound) :
    (Sheet.parse (Sheet.parse t).render).unplaced = (Sheet.parse t).unplaced ∧
      ∀ x : Prefixer,
        (x.rules.options.add = false ∧ x.rules.options.remove = false) ∨
            (x.run (Sheet.parse t)).sheet = Sheet.parse t →
          (Sheet.parse (x.processText t).css).unplaced = (Sheet.parse t).unplaced := by
  have hclosing : (Outline.atEnd t).closing = [] := by
    rw [Outline.closing, Outline.atEnd, Outline.openComment_run rfl hwhole.comments, ← Outline.atEnd, hwhole.blocks]
    rfl
  have hrender : (Sheet.parse t).render = (Outline.stretches t).flatMap Stretch.kept := by
    rw [render_parse_stretches, hclosing, List.append_nil]
  have hagain : (Sheet.parse (Sheet.parse t).render).unplaced = (Sheet.parse t).unplaced := by
    rw [hrender]
    exact SheetReader.unplaced_finish (SheetReader.foldl_reprinted rfl SheetReader.isSteady_start rfl rfl rfl
      hwhole.strings hwhole.comments hsound)
  refine ⟨hagain, fun x hx => ?_⟩
  have hsheet : (x.run (Sheet.parse t)).sheet = Sheet.parse t :=
    hx.elim (fun hoff => Prefixer.run_of_off hoff.1 hoff.2 _) id
  have hcss : (x.processText t).css = (Sheet.parse t).render := congrArg Sheet.render hsheet
  rw [hcss, hagain]

/-- A declaration that ends in an escaped backslash and a blank, and one that ends in a string. -/
def looseRule : Text := "a\x7bb:c\\\\ ;d:'e'\x7d"

/-- The blank goes, and the sheet stays. -/
theorem parse_render_parse_loose :
    let x := Prefixer.compile { features := [], featureQueries := [] }
      { agents := default, targets := [], vendors := [] } { add := false, remove := false }
    looseRule.IsWhole ∧ (∀ s ∈ Outline.stretches looseRule, s.IsSound) ∧ (Sheet.parse looseRule).render ≠ looseRule ∧
      (Sheet.parse (Sheet.parse looseRule).render).unplaced = (Sheet.parse looseRule).unplaced ∧
      (Sheet.parse (x.processText looseRule).css).unplaced = (Sheet.parse looseRule).unplaced := by
  intro x
  have hwhole : looseRule.IsWhole := ⟨by decide +kernel, by decide +kernel, by decide +kernel⟩
  have hsound : ∀ s ∈ Outline.stretches looseRule, s.IsSound := by decide +kernel
  obtain ⟨hagain, hprocessed⟩ := parse_render_parse looseRule hwhole hsound
  exact ⟨hwhole, hsound, by decide +kernel, hagain, hprocessed x (.inl ⟨rfl, rfl⟩)⟩

/-- Without its blank a backslash takes the semicolon, and two declarations become one. -/
example :
    let s := Sheet.parse "a\x7bb:c\\ ;d:e\x7d"
    (s.declarations Sheet.rootId).length = 2 ∧ ((Sheet.parse s.render).declarations Sheet.rootId).length = 1 := by
  decide +kernel

end VendorCss
