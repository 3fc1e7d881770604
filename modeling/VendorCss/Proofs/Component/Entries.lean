import VendorCss.Proofs.Component.Parts

/-!
# Entries of a comma list

An entry is what stands between two commas. An entry that stands in a text (`Stands`) can be printed elsewhere: before
another comma, with other white space in front of that, or at the end. It is read back there (`Stands.reads_comma`,
`Stands.reads_last`), and it stays so when one identifier in it takes the place of another (`Stands.renamed`). Only an
escape in digits at the end of an entry takes in the white space that comes to stand after it (`ReadsBack`).
-/

namespace VendorCss

namespace Token

/-- Nothing is left open in the token, and no name in it is disguised. -/
def isWhole (u : Token) : Bool := u.isClosed && u.isPlainlyNamed && !u.isBroken && !opensEscape false u.text

theorem isWhole_iff {u : Token} : u.isWhole = true ↔
    u.isClosed = true ∧ u.isPlainlyNamed = true ∧ u.isBroken = false ∧ opensEscape false u.text = false := by
  simp only [isWhole, Bool.and_eq_true, Bool.not_eq_true', and_assoc]

/-! ## Blanks before and after a comma -/

/-- White space as tokens, at most one. -/
def blanks (s : Text) : List Token := if s.isEmpty then [] else [⟨.blank, s⟩]

theorem tokens_blanks {s r : Text} (hs : ∀ c ∈ s, isSpace c = true) (hr : ∀ c ∈ r.head?, isSpace c = false) :
    tokens (s ++ r) = blanks s ++ tokens r := by
  cases s with
  | nil => rfl
  | cons c s =>
    rw [List.forall_mem_cons] at hs
    have hrun : ((s ++ r).takeWhile isSpace).length = s.length := by
      have hstop : r.takeWhile isSpace = [] := takeWhile_append_of_head (p := []) hr
      rw [List.takeWhile_append_of_pos hs.2, hstop, List.append_nil]
    have hscan : scan c (s ++ r) = (.blank, s.length) := by
      unfold scan
      rw [if_pos hs.1, hrun]
    rw [List.cons_append, tokens_cons, hscan, List.take_left, List.drop_left]
    rfl

end Token

namespace Component

open Token (blanks StartsBorder Replaces)

variable {xs ys : List Token} {cs cs' ds : List Component} {c d : Component} {s t before after x : Text}

/-! ## Entries -/

/-- The component stands on its own at the end of an entry: it is neither white space nor a divider. -/
def isFirm (c : Component) : Bool := !(c.isSpace || c.isAnyDiv)

theorem isAnyDiv_of_isFirm (h : c.isFirm = true) : c.isAnyDiv = false := by
  cases c <;> first | rfl | cases h

/-- The components between two commas. -/
structure IsEntry (cs : List Component) : Prop where
  ne : cs ≠ []
  head : ∀ c ∈ cs.head?, c.isFirm = true
  last : ∀ c ∈ cs.getLast?, c.isFirm = true
  commas : ∀ c ∈ cs, c.isDiv "," = false
  chain : cs.IsChain Fits

/-- A text with an escape in digits at its end, which white space would end. -/
def EndsInDigits (t : Text) : Prop :=
  ∃ a digits, t = a ++ '\\' :: digits ∧ digits ≠ [] ∧ digits.length ≤ 6 ∧
    ∀ c ∈ digits, (Token.hexValue? c).isSome = true

/-- An entry and what it is read back as. That is the entry itself; where its last word ends in an escape in digits,
white space that comes to stand after the word belongs to the escape. -/
inductive ReadsBack : List Component → List Component → Prop
  | same (cs : List Component) : ReadsBack cs cs
  | escape (cs : List Component) {t s : Text} (hdigits : EndsInDigits t) (hs : ∀ c ∈ s, Token.isSpace c = true) :
      ReadsBack (cs ++ [word t]) (cs ++ [word (t ++ s)])

/-- An escape at the end of a text that does not end in white space. -/
theorem endsInDigits_of_endsInEscape (h : Token.EndsInEscape t) (hlast : ∀ c ∈ t.getLast?, Token.isSpace c = false) :
    EndsInDigits t := by
  obtain ⟨a, _, rfl, digits, s, rfl, hne, hlength, hdigits, hs⟩ := h
  rcases List.eq_nil_or_concat s with rfl | ⟨s, c, rfl⟩
  · exact ⟨a, digits, by rw [List.append_nil], hne, hlength, hdigits⟩
  · have hend : a ++ '\\' :: (digits ++ s.concat c) = (a ++ '\\' :: (digits ++ s)) ++ [c] := by simp
    have hspace := hs c (by simp)
    rw [hlast c (by rw [hend, List.getLast?_concat]; rfl)] at hspace
    cases hspace

theorem EndsInDigits.append (h : EndsInDigits t) (s : Text) : EndsInDigits (s ++ t) := by
  obtain ⟨a, digits, rfl, hdigits⟩ := h
  exact ⟨s ++ a, digits, by rw [List.append_assoc], hdigits⟩

/-- A word in an entry can be any word. -/
theorem IsEntry.renamed {fs gs : List Component} {old : Text} (h : IsEntry (fs ++ word old :: gs)) (new : Text) :
    IsEntry (fs ++ word new :: gs) where
  ne := List.append_ne_nil_of_right_ne_nil _ (List.cons_ne_nil _ _)
  head c hc := by
    cases fs with
    | nil => cases hc; rfl
    | cons d fs => exact h.head c hc
  last c hc := by
    have hlast := h.last c
    rw [List.getLast?_append, List.getLast?_cons] at hc hlast
    cases hgs : gs.getLast? with
    | none =>
      rw [hgs] at hc
      cases hc
      rfl
    | some d =>
      rw [hgs] at hc hlast
      exact hlast hc
  commas := by
    have hcommas := h.commas
    rw [List.forall_mem_append, List.forall_mem_cons] at hcommas ⊢
    exact ⟨hcommas.1, rfl, hcommas.2.2⟩
  chain := by
    obtain ⟨hfs, hgs, hseam⟩ := List.isChain_append.1 h.chain
    refine List.isChain_append.2 ⟨hfs, List.isChain_cons.2 ⟨fun d hd => ?_, hgs.tail⟩, fun c hc d hd => ?_⟩
    · have hfits := (List.isChain_cons.1 hgs).1 d hd
      cases d <;> exact hfits
    · cases hd
      have hfits := hseam c hc _ rfl
      cases c <;> exact hfits

theorem ReadsBack.isEntry (h : ReadsBack cs cs') (hcs : IsEntry cs) : IsEntry cs' := by
  cases h with
  | same => exact hcs
  | escape cs => exact hcs.renamed _

/-! ## Entries in a text -/

/-- The tokens `xs` before `x` are read as the entry, and nothing in them is open. White space `before` may stand in
front of another comma after them: it is what stands there, or the entry does not end in white space. -/
structure Stands (before : Text) (cs : List Component) (xs : List Token) (x : Text) : Prop where
  reads : Reads xs cs
  tokens : tokens (xs.flatMap Token.text ++ x) = xs ++ tokens x
  whole : ∀ u ∈ xs, u.isWhole = true
  ne : x ≠ []
  border : StartsBorder x
  unquoted : Token.startsQuoted x = false
  ending : before = [] ∨ x.head? = before.head? ∨ ∀ c ∈ (renderAll cs).getLast?, Token.isSpace c = false

/-- Whole tokens print their characters. -/
theorem Reads.renderAll_of_isWhole (h : Reads xs cs) (ht : tokens t = xs ++ ys)
    (hwhole : ∀ u ∈ xs, u.isWhole = true) : renderAll cs = xs.flatMap Token.text := by
  have hread : ∀ u ∈ xs, u.IsRead := fun u hu => tokens_isRead t u (ht ▸ List.mem_append_left ys hu)
  refine h.renderAll_eq hread fun u hu => ?_
  obtain ⟨hclosed, hnamed, -⟩ := Token.isWhole_iff.1 (hwhole u hu)
  exact printed_eq_text (hread u hu) hclosed hnamed

theorem Stands.renderAll_eq (h : Stands before cs xs x) : renderAll cs = xs.flatMap Token.text :=
  h.reads.renderAll_of_isWhole h.tokens h.whole

theorem Stands.opensEscape_eq (h : Stands before cs xs x) : Token.opensEscape false (renderAll cs) = false := by
  rw [h.renderAll_eq]
  exact Token.opensEscape_flatMap fun u hu => (Token.isWhole_iff.1 (h.whole u hu)).2.2.2

/-- What does not start with white space is no white space to the reader. -/
theorem Reads.isSpace_head (h : Reads (VendorCss.tokens t) ds) (hds : ∀ d ∈ ds.head?, d.isFirm = true) :
    ∀ c ∈ t.head?, Token.isSpace c = false := by
  intro c hc
  obtain ⟨r, rfl⟩ := List.head?_eq_some_iff.1 hc
  by_contra hspace
  rw [Bool.not_eq_false] at hspace
  have hkind : (Token.scan c r).1 = .blank := by
    unfold Token.scan
    rw [if_pos hspace]
  rw [tokens_cons, hkind] at h
  obtain ⟨d, hd, -, hjoins⟩ := h.kindred_head (c := space _) rfl
  have hfirm := hds d hd
  rw [isFirm, ← hjoins] at hfirm
  cases hfirm

/-- The tokens of a comma with white space around it. -/
theorem reads_comma (before after : Text) :
    Reads (blanks before ++ ⟨.comma, [',']⟩ :: blanks after) [div "," before after] := by
  cases before <;> cases after <;> rfl

/-- A comma between two parts that are read. -/
theorem Reads.append_comma (hcs : Reads xs cs) (hlast : ∀ c ∈ cs.getLast?, c.isFirm = true)
    (hafter : ∀ c ∈ after, Token.isSpace c = true) (hbefore : ∀ c ∈ before, Token.isSpace c = true)
    (hds : Reads (VendorCss.tokens t) ds) (hhead : ∀ d ∈ ds.head?, d.isFirm = true) :
    Reads (xs ++ VendorCss.tokens (before ++ ',' :: (after ++ t))) (cs ++ div "," before after :: ds) := by
  have htokens : VendorCss.tokens (before ++ ',' :: (after ++ t)) =
      (blanks before ++ ⟨.comma, [',']⟩ :: blanks after) ++ VendorCss.tokens t := by
    rw [Token.tokens_blanks hbefore fun c hc => by cases hc; decide, tokens_cons,
      show Token.scan ',' (after ++ t) = (.comma, 0) from rfl, List.take_zero, List.drop_zero,
      Token.tokens_blanks hafter (hds.isSpace_head hhead), List.append_assoc, List.cons_append]
  rw [htokens]
  refine hcs.append ((reads_comma before after).append hds fun c hc d hd hjoins => ?_) fun c hc d hd hjoins => ?_
  · have hfirm := hhead d hd
    cases hc
    rcases hjoins with ⟨hword, -⟩ | ⟨-, hjoins⟩
    · cases hword
    · rw [isFirm, hjoins] at hfirm
      cases hfirm
  · have hfirm := hlast c hc
    cases hd
    rcases hjoins with ⟨-, hword⟩ | ⟨hjoins, -⟩
    · cases hword
    · rw [isFirm, hjoins] at hfirm
      cases hfirm

/-- White space before a comma starts with a border, and so does what is left of it. -/
theorem startsBorder_comma (hbefore : ∀ c ∈ before, Token.isSpace c = true) (t : Text) :
    StartsBorder (before ++ ',' :: t) ∧ Token.startsQuoted (before ++ ',' :: t) = false := by
  cases before with
  | nil => exact ⟨fun c hc => by cases hc; decide, rfl⟩
  | cons c before =>
    refine ⟨fun d hd => ?_, ?_⟩
    · cases hd
      exact Token.mem_borders_of_isSpace (hbefore c List.mem_cons_self)
    · unfold Token.startsQuoted
      rw [List.dropWhile_append_of_pos hbefore]
      rfl

theorem exists_drop_spaceLength (hbefore : ∀ c ∈ before, Token.isSpace c = true) (t : Text) :
    (before ++ ',' :: t).take (Token.spaceLength (before ++ ',' :: t)) = before.take (Token.spaceLength before) ∧
      (before ++ ',' :: t).drop (Token.spaceLength (before ++ ',' :: t)) =
        before.drop (Token.spaceLength before) ++ ',' :: t := by
  have hlength : Token.spaceLength (before ++ ',' :: t) = Token.spaceLength before := by
    match before with
    | [] => rfl
    | [c] => simp [Token.spaceLength_cons]
    | c :: d :: before => simp [Token.spaceLength_cons]
  have hle := Token.spaceLength_le before
  rw [hlength, List.take_append_of_le_length hle, List.drop_append_of_le_length hle]
  exact ⟨rfl, rfl⟩

/-! ## Entries printed anew -/

/-- An entry is read where nothing follows it. -/
theorem Stands.reads_last (h : Stands before cs xs x) : Reads (VendorCss.tokens (renderAll cs)) cs := by
  have hreplaces : Replaces x [] := ⟨h.ne, h.border, nofun, h.unquoted.symm, .inr nofun⟩
  have hbroken (u : Token) (hu : u ∈ xs) := (Token.isWhole_iff.1 (h.whole u hu)).2.2.1
  have htokens := Token.tokens_replaced hreplaces h.renderAll_eq.symm h.opensEscape_eq hbroken (.inl rfl)
    (h.renderAll_eq ▸ h.tokens)
  rw [List.append_nil, tokens_nil, List.append_nil] at htokens
  rcases htokens with heq | ⟨-, ys, u, rfl, -, heq⟩
  · exact heq ▸ h.reads
  · rw [List.take_nil, List.append_nil] at heq
    exact heq ▸ h.reads

/-- **An entry before a comma.** It is read back where a comma follows it and what may follow a comma. -/
theorem Stands.reads_comma (h : Stands before cs xs x) (hcs : IsEntry cs)
    (hbefore : ∀ c ∈ before, Token.isSpace c = true) (hafter : ∀ c ∈ after, Token.isSpace c = true)
    (hds : Reads (VendorCss.tokens t) ds) (hhead : ∀ d ∈ ds.head?, d.isFirm = true) :
    ∃ cs' before', ReadsBack cs cs' ∧ Reads (VendorCss.tokens (renderAll cs ++ (before ++ ',' :: (after ++ t))))
      (cs' ++ div "," before' after :: ds) := by
  obtain ⟨hborder, hunquoted⟩ := startsBorder_comma hbefore (after ++ t)
  obtain ⟨htake, hdrop⟩ := exists_drop_spaceLength hbefore (after ++ t)
  have hrest (c : Char) (hc : c ∈ before.drop (Token.spaceLength before)) := hbefore c (List.mem_of_mem_drop hc)
  have hreplaces : Replaces x (before ++ ',' :: (after ++ t)) :=
    ⟨h.ne, h.border, hborder, hunquoted.trans h.unquoted.symm, .inr (hdrop ▸ (startsBorder_comma hrest _).1)⟩
  have hbroken (u : Token) (hu : u ∈ xs) := (Token.isWhole_iff.1 (h.whole u hu)).2.2.1
  have hending : Token.spaceLength (before ++ ',' :: (after ++ t)) = 0 ∨
      x.head? = (before ++ ',' :: (after ++ t)).head? ∨ ∀ c ∈ (renderAll cs).getLast?, Token.isSpace c = false := by
    cases before with
    | nil => exact .inl rfl
    | cons c before => exact .inr (h.ending.resolve_left (List.cons_ne_nil c before))
  have hsame (heq : VendorCss.tokens (renderAll cs ++ (before ++ ',' :: (after ++ t))) =
      xs ++ VendorCss.tokens (before ++ ',' :: (after ++ t))) :
      ∃ cs' before', ReadsBack cs cs' ∧ Reads (VendorCss.tokens (renderAll cs ++ (before ++ ',' :: (after ++ t))))
        (cs' ++ div "," before' after :: ds) :=
    ⟨cs, before, .same cs, heq ▸ h.reads.append_comma hcs.last hafter hbefore hds hhead⟩
  rcases Token.tokens_replaced hreplaces h.renderAll_eq.symm h.opensEscape_eq hbroken hending
      (h.renderAll_eq ▸ h.tokens) with heq | ⟨hdiffers, ys, u, rfl, hescape, heq⟩
  · exact hsame heq
  rw [htake, hdrop] at heq
  obtain ⟨cs₀, w, rfl, hreads⟩ := h.reads.extend (before.take (Token.spaceLength before))
  have htokens : VendorCss.tokens (renderAll (cs₀ ++ [word (w ++ u)]) ++ (before ++ ',' :: (after ++ t))) =
      (ys ++ [⟨.word, u ++ before.take (Token.spaceLength before)⟩]) ++
        VendorCss.tokens (before.drop (Token.spaceLength before) ++ ',' :: (after ++ t)) := by
    rw [heq, List.append_assoc, List.singleton_append]
  refine ⟨_, before.drop (Token.spaceLength before), ?_,
    htokens ▸ hreads.append_comma (fun c hc => ?_) hafter hrest hds hhead⟩
  · by_cases hnil : before = []
    · rw [hnil, List.take_nil, List.append_nil]
      exact .same _
    have hlast := (h.ending.resolve_left hnil).resolve_left fun hhead => hdiffers <| by
      rw [hhead, List.head?_append_of_ne_nil _ hnil]
    rw [← List.append_assoc]
    refine .escape cs₀ ((endsInDigits_of_endsInEscape hescape fun c hc => hlast c ?_).append w)
      fun c hc => hbefore c (List.mem_of_mem_take hc)
    rw [renderAll_append, renderAll_cons, renderAll_nil, render, List.append_nil, List.getLast?_append, List.getLast?_append,
      Option.mem_def.1 hc]
    rfl
  · rw [List.getLast?_concat] at hc
    cases hc
    rfl

/-! ## A word replaced -/

theorem isSpace_of_isNamePart {c : Char} (h : Token.isNamePart c = true) : Token.isSpace c = false := by
  by_contra hspace
  rw [Bool.not_eq_false] at hspace
  rw [Token.isNamePart_of_mem_borders (Token.mem_borders_of_isSpace hspace)] at h
  cases h

/-- An identifier starts with a character that has no meaning of its own, and neither opens nor quotes anything. -/
theorem exists_cons_of_isIdent (h : Token.isIdent t = true) : ∃ c r, t = c :: r ∧ Token.isSpace c = false ∧
    (∀ y, Token.startsQuoted (c :: y) = false) ∧ c ≠ '*' ∧ c ≠ '"' ∧ c ≠ '\'' := by
  cases t with
  | nil => cases h
  | cons c r =>
    have hname := Token.isNamePart_of_isIdent h c List.mem_cons_self
    have hne {e : Char} (he : Token.isNamePart e = false) : c ≠ e := by
      rintro rfl
      rw [hname] at he
      cases he
    have hspace := isSpace_of_isNamePart hname
    refine ⟨c, r, rfl, hspace, fun y => ?_, hne (by decide), hne (by decide), hne (by decide)⟩
    rw [Token.startsQuoted_cons, if_neg (Bool.eq_false_iff.1 hspace), beq_false_of_ne (hne (by decide)),
      beq_false_of_ne (hne (by decide))]
    rfl

theorem isWhole_of_isIdent (h : Token.isIdent t = true) : (⟨.word, t⟩ : Token).isWhole = true := by
  have hname := Token.isNamePart_of_isIdent h
  obtain ⟨c, r, rfl, -, -, -, hquote, hquote'⟩ := exists_cons_of_isIdent h
  have hescape : '\\' ∉ c :: r := fun hmem => absurd (hname _ hmem) (by decide)
  refine Token.isWhole_iff.2 ⟨rfl, rfl, ?_, Token.opensEscape_of_notMem hescape⟩
  simp [Token.isBroken, hquote, hquote']

/-- Before a word stands a token that ends by itself. -/
theorem Reads.isDelimiter_last (h : Reads xs cs) (ht : tokens t = xs ++ ys) (hwhole : ∀ u ∈ xs, u.isWhole = true)
    (hlast : ∀ c ∈ cs.getLast?, c.isWord = false) : ∀ u ∈ xs.getLast?, u.kind.isDelimiter = true := by
  intro u hu
  obtain ⟨vs, rfl⟩ := List.getLast?_eq_some_iff.1 hu
  rcases List.eq_nil_or_concat cs with rfl | ⟨ds, c, rfl⟩
  · have hnil := (h.renderAll_of_isWhole ht hwhole).symm
    exact absurd ((flatMap_text_eq_nil ht).1 hnil) (List.concat_ne_nil _ _)
  · rw [List.concat_eq_append] at h hlast
    exact h.isDelimiter (hlast c (by rw [List.getLast?_concat]; rfl))

/-- A word between what words do not join. -/
theorem Reads.append_word {fs gs : List Component} {as bs : List Token} (has : Reads as fs) (hbs : Reads bs gs)
    (hlast : ∀ c ∈ fs.getLast?, c.isWord = false) (hhead : ∀ c ∈ gs.head?, c.isWord = false) (t : Text) :
    Reads (as ++ ⟨.word, t⟩ :: bs) (fs ++ word t :: gs) := by
  have hword : Reads (⟨.word, t⟩ :: bs) (word t :: gs) := by
    have hone : Reads [⟨.word, t⟩] [word t] := rfl
    refine hone.append hbs fun c hc d hd hjoins => ?_
    cases hc
    rcases hjoins with ⟨-, hd'⟩ | ⟨hc, -⟩
    · rw [hhead d hd] at hd'
      cases hd'
    · cases hc
  refine has.append hword fun c hc d hd hjoins => ?_
  cases hd
  rcases hjoins with ⟨hc', -⟩ | ⟨-, hd⟩
  · rw [hlast c hc] at hc'
    cases hc'
  · cases hd

theorem Fits.isWord_eq_false (h : Fits (word t) c) : c.isWord = false := by
  cases c <;> first | rfl | exact h.elim

/-- **A word replaced.** One identifier takes the place of another in an entry that stands. -/
theorem Stands.renamed {fs gs : List Component} {old new : Text} (h : Stands before (fs ++ word old :: gs) xs x)
    (hchain : (fs ++ word old :: gs).IsChain Fits) (hold : Token.isIdent old = true)
    (hnew : Token.isIdent new = true) : ∃ xs', Stands before (fs ++ word new :: gs) xs' x := by
  obtain ⟨-, hgs, hseam⟩ := List.isChain_append.1 hchain
  have hbefore : ∀ c ∈ fs.getLast?, c.isWord = false := fun c hc => (hseam c hc _ rfl).symm.isWord_eq_false
  have hafter : ∀ c ∈ gs.head?, c.isWord = false := fun c hc => ((List.isChain_cons.1 hgs).1 c hc).isWord_eq_false
  obtain ⟨as, rest, rfl, has, hrest⟩ := h.reads.parts
  have hcut : Reads rest ([word old] ++ gs) := hrest
  obtain ⟨us, bs, rfl, hus, hbs⟩ := hcut.parts
  have htokens := h.tokens
  have hwhole := h.whole
  simp only [List.flatMap_append, List.append_assoc] at htokens
  simp only [List.forall_mem_append] at hwhole
  have hsuffix := tokens_suffix htokens
  simp only [List.flatMap_append, tokens_text] at hsuffix
  have htext : us.flatMap Token.text = old := by
    rw [← hus.renderAll_of_isWhole hsuffix hwhole.2.1, renderAll_cons, renderAll_nil, render, List.append_nil]
  rw [htext] at htokens hsuffix
  -- the word is one token
  obtain ⟨u, us, rfl⟩ : ∃ u vs, us = u :: vs := by
    refine List.exists_cons_of_ne_nil ?_
    rintro rfl
    cases hus
  have hlength := congrArg List.length htext
  rw [List.flatMap_cons, List.length_append] at hlength
  obtain ⟨rfl, hafterWord, hrenamed⟩ := Token.tokens_renamed hold hnew hsuffix (by omega)
  obtain rfl : us = [] :=
    (flatMap_text_eq_nil hafterWord.symm).1 (List.length_eq_zero_iff.1 (Nat.add_eq_left.1 hlength))
  have htokens' : VendorCss.tokens (as.flatMap Token.text ++ (new ++ (bs.flatMap Token.text ++ x))) =
      as ++ VendorCss.tokens (new ++ (bs.flatMap Token.text ++ x)) := by
    obtain ⟨o, old, rfl, -, hquoted, -⟩ := exists_cons_of_isIdent hold
    obtain ⟨n, new, rfl, hspace, hquoted', hstar, -⟩ := exists_cons_of_isIdent hnew
    exact Token.tokens_delimited (List.cons_ne_nil o _) (fun e he => by cases he; exact ⟨hspace, hstar⟩)
      ((hquoted' _).trans (hquoted _).symm) (has.isDelimiter_last htokens hwhole.1 hbefore)
      (fun u hu => (Token.isWhole_iff.1 (hwhole.1 u hu)).2.2.2)
      (fun u hu => (Token.isWhole_iff.1 (hwhole.1 u hu)).2.2.1) (hsuffix ▸ htokens)
  refine ⟨as ++ ⟨.word, new⟩ :: bs, has.append_word hbs hbefore hafter new, ?_, ?_, h.ne, h.border, h.unquoted,
    h.ending.imp_right (Or.imp_right fun hlast c hc => ?_)⟩
  · simp only [List.flatMap_append, List.flatMap_cons, List.append_assoc]
    rw [htokens', hrenamed, ← hafterWord]
    rfl
  · rw [List.forall_mem_append, List.forall_mem_cons]
    exact ⟨hwhole.1, isWhole_of_isIdent hnew, hwhole.2.2⟩
  · simp only [renderAll_append, renderAll, render, List.getLast?_append] at hlast hc
    cases hend : (renderAll gs).getLast? with
    | some d =>
      rw [hend] at hlast hc
      exact hlast c hc
    | none =>
      have hne : new ≠ [] := by
        rintro rfl
        cases hnew
      rw [hend, List.getLast?_eq_some_getLast hne] at hc
      cases hc
      exact isSpace_of_isNamePart (Token.isNamePart_of_isIdent hnew _ (List.getLast_mem hne))

end Component

end VendorCss
