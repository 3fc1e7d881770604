import VendorCss.Proofs.Component.Entries
import VendorCss.Proofs.Separated

/-!
# Comma lists

A list of entries, each with the comma after it, is put together without the last comma (`joined`), and a list of
components is cut into such entries (`pieces`). Entries that stand are read back from what the list prints
(`exists_reads_joined`). The entries of a comma list (`Text.IsCommaList`) stand in its text, and the last one stands
before any comma (`Text.IsCommaList.isPiece`).
-/

namespace VendorCss

namespace Component

variable {cs ds g : List Component} {c d last : Component} {ps qs : List (List Component × Component)} {t : Text}

/-! ## Groups -/

theorem commaGroups_of_forall (h : ∀ c ∈ cs, c.isDiv "," = false) : commaGroups cs = [cs] := by
  induction cs with
  | nil => rfl
  | cons c cs ih =>
    rw [List.forall_mem_cons] at h
    rw [commaGroups, if_neg (Bool.eq_false_iff.1 h.1), ih h.2]

theorem commaGroups_append (h : ∀ c ∈ cs, c.isDiv "," = false) (hd : d.isDiv "," = true) (ds : List Component) :
    commaGroups (cs ++ d :: ds) = cs :: commaGroups ds := by
  induction cs with
  | nil => rw [List.nil_append, commaGroups, if_pos hd]
  | cons c cs ih =>
    rw [List.forall_mem_cons] at h
    rw [List.cons_append, commaGroups, if_neg (Bool.eq_false_iff.1 h.1), ih h.2]

/-! ## Entries with their commas -/

/-- Entries put together with the comma after each, save after the last. -/
def joined : List (List Component × Component) → List Component
  | [] => []
  | [(g, _)] => g
  | (g, c) :: p :: ps => g ++ c :: joined (p :: ps)

/-- Components cut into entries with the comma after each; after the last one that is `last`. -/
def pieces (last : Component) : List Component → List (List Component × Component)
  | [] => [([], last)]
  | c :: cs =>
    if c.isDiv "," then ([], c) :: pieces last cs
    else
      match pieces last cs with
      | [] => [([c], last)]
      | (g, d) :: ps => (c :: g, d) :: ps

theorem joined_cons (g : List Component) (c : Component) (hne : ps ≠ []) :
    joined ((g, c) :: ps) = g ++ c :: joined ps := by
  obtain ⟨p, ps, rfl⟩ := List.exists_cons_of_ne_nil hne
  rfl

theorem joined_append (ps : List (List Component × Component)) (hne : qs ≠ []) :
    joined (ps ++ qs) = (ps.flatMap fun p => p.1 ++ [p.2]) ++ joined qs := by
  induction ps with
  | nil => rfl
  | cons p ps ih =>
    rw [List.cons_append, joined_cons _ _ (by simp [hne]), ih, List.flatMap_cons]
    simp

/-- Entries with their commas, and the last comma taken apart. -/
theorem flatMap_concat (ps : List (List Component × Component)) (g : List Component) (c : Component) :
    ((ps ++ [(g, c)]).flatMap fun p => p.1 ++ [p.2]) = joined (ps ++ [(g, c)]) ++ [c] := by
  rw [joined_append ps (List.cons_ne_nil _ _), joined, List.flatMap_append, List.flatMap_singleton, List.append_assoc]

theorem pieces_ne_nil (last : Component) (cs : List Component) : pieces last cs ≠ [] := by
  fun_cases pieces last cs <;> exact List.cons_ne_nil _ _

theorem joined_pieces (last : Component) (cs : List Component) : joined (pieces last cs) = cs := by
  fun_induction pieces last cs with
  | case1 => rfl
  | case2 c cs hc ih => rw [joined_cons _ _ (pieces_ne_nil last cs), ih, List.nil_append]
  | case3 c cs hc hnil => exact absurd hnil (pieces_ne_nil last cs)
  | case4 c cs hc g d ps heq ih =>
    rw [heq] at ih
    rw [← ih]
    cases ps <;> rfl

/-- The entries are those between the commas. -/
theorem map_fst_pieces (last : Component) (cs : List Component) : (pieces last cs).map Prod.fst = commaGroups cs := by
  fun_induction pieces last cs with
  | case1 => rfl
  | case2 c cs hc ih => rw [commaGroups, if_pos hc, List.map_cons, ih]
  | case3 c cs hc hnil => exact absurd hnil (pieces_ne_nil last cs)
  | case4 c cs hc g d ps heq ih =>
    rw [heq, List.map_cons] at ih
    rw [commaGroups, if_neg hc, ← ih, List.map_cons]

/-- Each entry is without commas, and the comma after it stands there or is the one after the last. -/
theorem forall_pieces (last : Component) (cs : List Component) : ∀ p ∈ pieces last cs,
    (∀ c ∈ p.1, c.isDiv "," = false) ∧ (p.2 = last ∨ p.2 ∈ cs ∧ p.2.isDiv "," = true) := by
  fun_induction pieces last cs with
  | case1 => exact List.forall_mem_singleton.2 ⟨fun _ hc => (List.not_mem_nil hc).elim, .inl rfl⟩
  | case2 c cs hc ih =>
    have hfirst : ∀ d ∈ ([] : List Component), d.isDiv "," = false := fun _ hd => (List.not_mem_nil hd).elim
    refine List.forall_mem_cons.2 ⟨⟨hfirst, .inr ⟨List.mem_cons_self, hc⟩⟩, fun p hp => ?_⟩
    exact ⟨(ih p hp).1, (ih p hp).2.imp_right (And.imp_left (List.mem_cons_of_mem c))⟩
  | case3 c cs hc hnil => exact absurd hnil (pieces_ne_nil last cs)
  | case4 c cs hc g d ps heq ih =>
    rw [heq, List.forall_mem_cons] at ih
    refine List.forall_mem_cons.2 ⟨⟨List.forall_mem_cons.2 ⟨by simpa using hc, ih.1.1⟩, ?_⟩, fun p hp => ?_⟩
    · exact ih.1.2.imp_right (And.imp_left (List.mem_cons_of_mem c))
    · exact ⟨(ih.2 p hp).1, (ih.2 p hp).2.imp_right (And.imp_left (List.mem_cons_of_mem c))⟩

/-! ## Lists printed anew -/

/-- An entry that can be printed before this comma. -/
structure IsPiece (p : List Component × Component) : Prop where
  entry : IsEntry p.1
  comma : ∃ before after, p.2 = div "," before after ∧ (∀ c ∈ before, Token.isSpace c = true) ∧
    (∀ c ∈ after, Token.isSpace c = true) ∧ ∃ xs x, Stands before p.1 xs x

/-- A list starts as its first entry does. -/
theorem joined_eq_cons (hne : ps ≠ []) (h : ∀ p ∈ ps, IsPiece p) : ∃ d ds, joined ps = d :: ds ∧ d.isFirm = true := by
  obtain ⟨⟨g, c⟩, ps, rfl⟩ := List.exists_cons_of_ne_nil hne
  have hentry := (h (g, c) List.mem_cons_self).entry
  obtain ⟨d, g, rfl⟩ := List.exists_cons_of_ne_nil hentry.ne
  cases ps <;> exact ⟨d, _, rfl, hentry.head d rfl⟩

/-- What tokens that leave nothing open are read as. -/
theorem Reads.ofText_eq (h : Reads (tokens t) cs) : ofText t = cs := by
  rw [Reads] at h
  rw [ofText, h, Reader.finish, List.reverse_reverse]

/-- **The entries of a printed list.** Each of them is read back, and nothing else. -/
theorem exists_reads_joined (hne : ps ≠ []) (h : ∀ p ∈ ps, IsPiece p) :
    ∃ ds, Reads (tokens (renderAll (joined ps))) ds ∧ (∀ d ∈ ds.head?, d.isFirm = true) ∧
      List.Forall₂ ReadsBack (ps.map Prod.fst) (commaGroups ds) := by
  induction ps with
  | nil => exact absurd rfl hne
  | cons p ps ih =>
    obtain ⟨g, c⟩ := p
    rw [List.forall_mem_cons] at h
    obtain ⟨hentry, before, after, rfl, hbefore, hafter, xs, x, hstands⟩ := h.1
    by_cases hps : ps = []
    · subst hps
      refine ⟨g, hstands.reads_last, hentry.head, ?_⟩
      rw [commaGroups_of_forall hentry.commas]
      exact .cons (.same g) .nil
    · obtain ⟨ds, hds, hhead, hgroups⟩ := ih hps h.2
      obtain ⟨g', before', hback, hreads⟩ := hstands.reads_comma hentry hbefore hafter hds hhead
      have hentry' := hback.isEntry hentry
      refine ⟨g' ++ div "," before' after :: ds, ?_, fun d hd => hentry'.head d ?_, ?_⟩
      · rw [joined_cons _ _ hps, renderAll_append, renderAll_cons, render_div]
        simpa using hreads
      · rwa [List.head?_append_of_ne_nil _ hentry'.ne] at hd
      · rw [commaGroups_append hentry'.commas rfl]
        exact .cons hback hgroups

end Component

/-! ## Comma lists -/

open Component

/-- Nothing in the text is open, neither at its end nor before, and no name of a function is disguised. -/
structure Text.StandsAlone (t : Text) : Prop where
  tokens : ∀ u ∈ tokens t, u.isWhole = true
  brackets : openBrackets (VendorCss.tokens t) = []
  /-- A semicolon after the text ends it. -/
  ends : VendorCss.tokens (t ++ [';']) = VendorCss.tokens t ++ VendorCss.tokens [';']

/-- A list of entries that are not empty and neither start nor end with a divider. -/
structure Text.IsCommaList (t : Text) : Prop where
  trimmed : t.trim = t
  whole : t.StandsAlone
  entries : ∀ g ∈ commaGroups (ofText t),
    g ≠ [] ∧ (∀ c ∈ g.head?, c.isAnyDiv = false) ∧ ∀ c ∈ g.getLast?, c.isAnyDiv = false

namespace Text

variable {t : Text} {cs pre g post : List Component} {last : Component} {before after : Text}

theorem StandsAlone.isClosed (h : t.StandsAlone) : t.IsClosed where
  brackets := by rw [h.brackets]; exact List.not_mem_nil
  tokens u hu := (Token.isWhole_iff.1 (h.tokens u hu)).1
  names u hu := (Token.isWhole_iff.1 (h.tokens u hu)).2.1

theorem StandsAlone.reads (h : t.StandsAlone) : Reads (VendorCss.tokens t) (ofText t) := by
  have hbrackets : ((VendorCss.tokens t).foldl Reader.step {}).brackets = openBrackets (VendorCss.tokens t) :=
    Reader.brackets_foldl (VendorCss.tokens t) {}
  rw [h.brackets, Reader.brackets, List.append_eq_nil_iff, List.map_eq_nil_iff] at hbrackets
  rw [Reads, ofText]
  generalize (VendorCss.tokens t).foldl Reader.step {} = r at hbrackets ⊢
  obtain ⟨items, outer, block⟩ := r
  obtain ⟨rfl, rfl⟩ := hbrackets
  rw [Reader.finish, List.reverse_reverse]

theorem IsCommaList.not_space {c : Char} (h : t.IsCommaList) (hc : c ∈ t.head? ∨ c ∈ t.getLast?) :
    Token.isSpace c = false := by
  have htrimmed : t.IsTrimmed := h.trimmed ▸ isTrimmed_trim t
  have hblank : isBlank c = false := hc.elim (htrimmed.head c) (htrimmed.last c)
  by_contra hspace
  rw [Bool.not_eq_false] at hspace
  rw [Token.isBlank_of_isSpace hspace] at hblank
  cases hblank

/-- The components before the end of a list, or before a comma in it, stand. -/
theorem IsCommaList.exists_stands (h : t.IsCommaList) (hcs : ofText t = pre ++ (g ++ post))
    (hpost : post = [] ∨ ∃ post', post = div "," before after :: post') : ∃ xs x, Stands before g xs x := by
  have hreads := h.whole.reads
  rw [hcs] at hreads
  obtain ⟨as, rest, htokens, has, hrest⟩ := hreads.parts
  obtain ⟨xs, bs, rfl, hxs, hbs⟩ := hrest.parts
  have hwhole := h.whole.tokens
  have hends := h.whole.ends
  rw [htokens] at hends hwhole
  rw [List.append_assoc] at hends
  simp only [List.forall_mem_append] at hwhole
  have hsuffix := tokens_suffix hends
  rw [List.flatMap_append, List.flatMap_append, tokens_text, List.append_assoc, List.append_assoc] at hsuffix
  have hrest := tokens_suffix hsuffix
  rw [List.flatMap_append, tokens_text] at hrest
  have hpost' : renderAll post = bs.flatMap Token.text := hbs.renderAll_of_isWhole hrest hwhole.2.2
  obtain ⟨hborder, hunquoted, hending⟩ : Token.StartsBorder (bs.flatMap Token.text ++ [';']) ∧
      Token.startsQuoted (bs.flatMap Token.text ++ [';']) = false ∧ (before = [] ∨
        (bs.flatMap Token.text ++ [';']).head? = before.head? ∨
        ∀ c ∈ (renderAll g).getLast?, Token.isSpace c = false) := by
    rw [← hpost']
    rcases hpost with rfl | ⟨post, rfl⟩
    · refine ⟨fun c hc => by cases hc; decide, rfl, .inr (.inr fun c hc => h.not_space (.inr ?_))⟩
      rw [← renderAll_ofText h.whole.isClosed, hcs, renderAll_append, renderAll_append, renderAll_nil, List.append_nil,
        List.getLast?_append, Option.mem_def.1 hc]
      rfl
    · have hspelled := forall_isSpelled_ofText t (div "," before after) (by rw [hcs]; simp)
      cases hspelled with
      | div _ hbefore _ =>
        obtain ⟨hborder, hunquoted⟩ := startsBorder_comma hbefore (after ++ (renderAll post ++ [';']))
        have htext : renderAll (div "," before after :: post) ++ [';'] =
            before ++ ',' :: (after ++ (renderAll post ++ [';'])) := by
          rw [renderAll_cons, render_div]
          simp
        rw [htext]
        refine ⟨hborder, hunquoted, ?_⟩
        cases before with
        | nil => exact .inl rfl
        | cons c before => exact .inr (.inl rfl)
  exact ⟨xs, bs.flatMap Token.text ++ [';'], hxs, hsuffix.trans (by rw [hrest]), hwhole.2.1, by simp, hborder,
    hunquoted, hending⟩

/-- White space at the start of a list would be white space of the text, and after a divider it would belong to that. -/
theorem IsCommaList.isFirm_head {c : Component} (h : t.IsCommaList) (hcs : ofText t = pre ++ c :: post)
    (hpre : ∀ d ∈ pre.getLast?, d.isAnyDiv = true) (hdiv : c.isAnyDiv = false) : c.isFirm = true := by
  cases c with
  | space s =>
    exfalso
    cases hlast : pre.getLast? with
    | none =>
      obtain rfl := List.getLast?_eq_none_iff.1 hlast
      obtain ⟨hspelled, -⟩ := List.forall_mem_cons.1 (hcs ▸ forall_isSpelled_ofText t)
      have htext := renderAll_ofText h.whole.isClosed
      rw [hcs, List.nil_append, renderAll_cons, render_space] at htext
      cases hspelled with
      | space hne hall =>
        obtain ⟨e, s, rfl⟩ := List.exists_cons_of_ne_nil hne
        have hspace := h.not_space (c := e) (.inl (by rw [← htext]; rfl))
        rw [hall e List.mem_cons_self] at hspace
        cases hspace
    | some d =>
      have hchain := hcs ▸ (allNormal_ofText t).chain
      have hfits := (List.isChain_append.1 hchain).2.2 d hlast _ rfl
      have hd := hpre d hlast
      cases d <;> first | exact hfits.elim | cases hd
  | div => cases hdiv
  | _ => rfl

theorem IsCommaList.isFirm_last {c : Component} (h : t.IsCommaList) (hcs : ofText t = pre ++ c :: post)
    (hpost : ∀ d ∈ post.head?, d.isAnyDiv = true) (hdiv : c.isAnyDiv = false) : c.isFirm = true := by
  cases c with
  | space s =>
    exfalso
    have hchain := hcs ▸ (allNormal_ofText t).chain
    cases post with
    | nil =>
      have hspelled := forall_isSpelled_ofText t (space s) (by rw [hcs]; simp)
      have htext := renderAll_ofText h.whole.isClosed
      rw [hcs, renderAll_append, renderAll_cons, renderAll_nil, render_space, List.append_nil] at htext
      cases hspelled with
      | space hne hall =>
        have hlast := List.getLast?_eq_some_getLast hne
        have hspace := h.not_space (c := s.getLast hne) (.inr (by rw [← htext, List.getLast?_append, hlast]; rfl))
        rw [hall _ (List.getLast_mem hne)] at hspace
        cases hspace
    | cons d post =>
      have hfits := (List.isChain_cons.1 (List.isChain_append.1 hchain).2.1).1 d rfl
      have hd := hpost d rfl
      cases d <;> first | exact hfits.elim | cases hd
  | div => cases hdiv
  | _ => rfl

theorem isAnyDiv_of_isDiv {c : Component} {sign : Text} (h : c.isDiv sign = true) : c.isAnyDiv = true := by
  cases c <;> first | rfl | cases h

/-- The entries of a list can be printed, the last one before any comma. -/
theorem IsCommaList.isPiece (h : t.IsCommaList) (hbefore : ∀ c ∈ before, Token.isSpace c = true)
    (hafter : ∀ c ∈ after, Token.isSpace c = true) :
    ∀ p ∈ Component.pieces (div "," before after) (ofText t), IsPiece p := by
  rintro ⟨g, c⟩ hp
  have hpieces := forall_pieces (div "," before after) (ofText t)
  have hgroups := map_fst_pieces (div "," before after) (ofText t)
  have hcs := (joined_pieces (div "," before after) (ofText t)).symm
  obtain ⟨hne, hhead, hlast⟩ := h.entries g (hgroups ▸ List.mem_map_of_mem hp)
  have hcommas := (hpieces _ hp).1
  -- each comma, that after the last entry too, has nothing but white space around it
  have hcomma : ∃ before after, c = div "," before after ∧ (∀ e ∈ before, Token.isSpace e = true) ∧
      ∀ e ∈ after, Token.isSpace e = true := by
    rcases (hpieces _ hp).2 with rfl | ⟨hmem, hsign⟩
    · exact ⟨before, after, rfl, hbefore, hafter⟩
    · cases forall_isSpelled_ofText t c hmem with
      | div sign hbefore hafter => exact ⟨_, _, by rw [eq_of_beq (α := Text) hsign], hbefore, hafter⟩
      | _ => cases hsign
  obtain ⟨ps, qs, hsplit⟩ := List.append_of_mem hp
  rw [hsplit, joined_append ps (List.cons_ne_nil _ _)] at hcs
  have hpre : ∀ d ∈ (ps.flatMap fun p => p.1 ++ [p.2]).getLast?, d.isAnyDiv = true := by
    intro d hd
    rcases List.eq_nil_or_concat ps with rfl | ⟨ps, p, rfl⟩
    · cases hd
    · rw [List.concat_eq_append, flatMap_concat, List.getLast?_concat] at hd
      cases hd
      rcases (hpieces p (by rw [hsplit]; simp)).2 with heq | ⟨-, hsign⟩
      · rw [heq]
        rfl
      · exact isAnyDiv_of_isDiv hsign
  obtain ⟨post, hjoined, hpost⟩ : ∃ post, joined ((g, c) :: qs) = g ++ post ∧
      (post = [] ∨ ∃ post', post = c :: post') := by
    cases qs with
    | nil => exact ⟨[], by rw [joined, List.append_nil], .inl rfl⟩
    | cons q qs => exact ⟨_, rfl, .inr ⟨_, rfl⟩⟩
  rw [hjoined] at hcs
  obtain ⟨before, after, rfl, hbefore, hafter⟩ := hcomma
  have hpost' : ∀ d ∈ post.head?, d.isAnyDiv = true := by
    rcases hpost with rfl | ⟨post, rfl⟩
    · nofun
    · intro d hd
      cases hd
      rfl
  refine ⟨⟨hne, fun d hd => ?_, fun d hd => ?_, hcommas, ?_⟩, before, after, rfl, hbefore, hafter,
    h.exists_stands hcs hpost⟩
  · obtain ⟨g, rfl⟩ := List.head?_eq_some_iff.1 hd
    exact h.isFirm_head hcs hpre (hhead d hd)
  · obtain ⟨g, rfl⟩ := List.getLast?_eq_some_iff.1 hd
    have hcs' : ofText t = (ps.flatMap fun p => p.1 ++ [p.2]) ++ g ++ d :: post := by simpa using hcs
    exact h.isFirm_last hcs' hpost' (hlast d hd)
  · exact (List.isChain_append.1 (List.isChain_append.1 (hcs ▸ (allNormal_ofText t).chain)).2.1).1

end Text

end VendorCss
