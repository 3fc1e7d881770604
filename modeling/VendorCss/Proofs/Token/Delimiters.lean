import VendorCss.Proofs.Token.Borders

/-!
# Delimiters and identifiers

White space, comments, strings, dividers and closing parentheses end by themselves: what follows them can be exchanged,
and no token before them changes (`tokens_delimited`). An identifier is read as a name, and another identifier in its
place as another name (`tokens_renamed`).
-/

namespace VendorCss

/-- White space, comments, strings, dividers and closing parentheses end by themselves. -/
def TokenKind.isDelimiter : TokenKind → Bool
  | .blank | .comment _ | .string | .closeBracket .paren | .comma | .colon | .slash => true
  | _ => false

namespace Token

variable {p x z : Text} {c : Char}

/-! ## Tokens that end by themselves -/

/-- The answer is a delimiter that ends with `p`, and the same one before another text. -/
def Delimits (c : Char) (p : Text) (ax az : TokenKind × Nat) : Prop :=
  ax.1.isDelimiter = true → ax.2 = p.length → c ∈ borders ∧ az = ax

theorem delimits_of_false {ax : TokenKind × Nat} (h : ax.1.isDelimiter = false) (az : TokenKind × Nat) :
    Delimits c p ax az := fun hdelimiter => by simp [h] at hdelimiter

theorem delimits_ite {r : Prop} [Decidable r] {x₁ x₂ z₁ z₂ : TokenKind × Nat} (hpos : r → Delimits c p x₁ z₁)
    (hneg : ¬r → Delimits c p x₂ z₂) : Delimits c p (if r then x₁ else x₂) (if r then z₁ else z₂) := by
  by_cases hr : r
  · rw [if_pos hr, if_pos hr]
    exact hpos hr
  · rw [if_neg hr, if_neg hr]
    exact hneg hr

theorem isDelimiter_nameToken (t : Text) : (nameToken t).1.isDelimiter = false := by
  unfold nameToken
  dsimp only
  split
  · split <;> rfl
  · rfl

theorem isDelimiter_ite {r : Prop} [Decidable r] {a b : TokenKind × Nat} (ha : a.1.isDelimiter = false)
    (hb : b.1.isDelimiter = false) : (if r then a else b).1.isDelimiter = false := by
  split
  · exact ha
  · exact hb

theorem delimits_slash (hx : x ≠ []) (hz : ∀ e ∈ z.head?, isSpace e = false ∧ e ≠ '*') :
    Delimits '/' p (scan '/' (p ++ x)) (scan '/' (p ++ z)) := by
  refine fun _ hlength => ⟨by decide, ?_⟩
  by_cases hstar : (p ++ x).head? = some '*'
  · obtain ⟨t, ht⟩ := List.head?_eq_some_iff.1 hstar
    cases p with
    | nil =>
      rw [ht, scan_slash_star] at hlength
      cases hlength
    | cons e q =>
      obtain ⟨rfl, rfl⟩ := List.cons.inj ht
      rw [List.cons_append, scan_slash_star] at hlength ⊢
      rw [List.cons_append, scan_slash_star, commentBody_of_le hx (Nat.le_of_eq (Nat.succ.inj hlength))]
  · rw [scan_slash hstar] at hlength ⊢
    obtain rfl := List.length_eq_zero_iff.1 hlength.symm
    exact scan_slash fun hhead => (hz '*' hhead).2 rfl

theorem scan_delimits (hx : x ≠ []) (hz : ∀ e ∈ z.head?, isSpace e = false ∧ e ≠ '*') :
    Delimits c p (scan c (p ++ x)) (scan c (p ++ z)) := by
  have single {kind : TokenKind} (hc : c ∈ borders) : Delimits c p (kind, 0) (kind, 0) := fun _ _ => ⟨hc, rfl⟩
  have other {kind : TokenKind} {n m : Nat} (h : kind.isDelimiter = false) : Delimits c p (kind, n) (kind, m) :=
    delimits_of_false h _
  by_cases hslash : c = '/'
  · subst hslash
    exact delimits_slash hx hz
  unfold scan
  refine delimits_ite (fun hspace _ hlength => ⟨mem_borders_of_isSpace hspace, ?_⟩) fun _ => ?_
  · have hall : ∀ e ∈ p, isSpace e = true := by
      have hrun : (p ++ x).takeWhile isSpace = p := by
        have htake := List.prefix_iff_eq_take.1 (List.takeWhile_prefix (l := p ++ x) isSpace)
        dsimp only at hlength
        rw [htake, hlength, List.take_left]
      exact fun e he => List.mem_takeWhile_imp (hrun ▸ he)
    have hz' : z.takeWhile isSpace = [] := takeWhile_append_of_head (p := []) fun e he => (hz e he).1
    dsimp only at hlength
    rw [hlength, List.takeWhile_append_of_pos hall, hz', List.append_nil]
  refine delimits_ite (fun hquote => ?_) fun _ => ?_
  · intro hdelimiter hlength
    rcases stringToken_kind c 0 (p ++ x) with hkind | hkind
    · refine ⟨?_, stringToken_closed hx hkind (Nat.le_of_eq hlength) z⟩
      rcases (by simpa using hquote : c = '"' ∨ c = '\'') with rfl | rfl <;> decide
    · rw [hkind] at hdelimiter
      cases hdelimiter
  refine delimits_ite (fun _ => other rfl) fun _ => delimits_ite (fun _ => other rfl) fun _ => ?_
  refine delimits_ite (fun _ => other rfl) fun _ => delimits_ite (fun hc => single (by rw [hc]; decide)) fun _ => ?_
  refine delimits_ite (fun _ => other rfl) fun _ => delimits_ite (fun _ => other rfl) fun _ => ?_
  refine delimits_ite (fun _ => other rfl) fun _ => ?_
  refine delimits_ite (fun hc => single (by rw [hc]; decide)) fun _ => ?_
  refine delimits_ite (fun hc => single (by rw [hc]; decide)) fun _ => ?_
  refine delimits_ite (fun hc => absurd hc hslash) fun _ => ?_
  -- what follows are words, and names
  have hname (t : Text) : ((nameToken t).map id (· - 1)).1.isDelimiter = false := isDelimiter_nameToken t
  refine delimits_of_false ?_ _
  iterate 6 refine isDelimiter_ite rfl ?_
  refine isDelimiter_ite ?_ (isDelimiter_ite (hname _) rfl)
  exact isDelimiter_ite rfl (isDelimiter_ite rfl (isDelimiter_ite (hname _) rfl))

/-- A delimiter is one whatever follows it, but for white space and for the star of a comment. -/
theorem tokens_delimiter {a : Token} (ha : a.kind.isDelimiter = true) (hx : x ≠ [])
    (hz : ∀ e ∈ z.head?, isSpace e = false ∧ e ≠ '*') (h : tokens (a.text ++ x) = a :: tokens x) :
    (∃ c ∈ borders, a.text.head? = some c) ∧ tokens (a.text ++ z) = a :: tokens z := by
  have hne : a.text ≠ [] := text_ne_nil (t := a.text ++ x) (h ▸ List.mem_cons_self)
  obtain ⟨kind, text⟩ := a
  obtain ⟨c, p, rfl⟩ := List.exists_cons_of_ne_nil hne
  rw [List.cons_append, tokens_cons] at h
  obtain ⟨hkind, htext⟩ := Token.mk.inj (List.cons.inj h).1
  have hlength : (scan c (p ++ x)).2 = p.length := by
    have hpos := List.length_pos_iff.2 hx
    have hlength := congrArg List.length (List.cons.inj htext).2
    rw [List.length_take, List.length_append] at hlength
    omega
  obtain ⟨hc, hscan⟩ := scan_delimits hx hz (c := c) (hkind ▸ ha) hlength
  refine ⟨⟨c, hc, rfl⟩, ?_⟩
  rw [List.cons_append, tokens_cons, hscan, hlength, hkind, List.take_left, List.drop_left]

theorem opensEscape_flatMap {xs : List Token} (h : ∀ u ∈ xs, opensEscape false u.text = false) :
    opensEscape false (xs.flatMap Token.text) = false := by
  induction xs with
  | nil => rfl
  | cons u xs ih =>
    rw [List.forall_mem_cons] at h
    rw [List.flatMap_cons, opensEscape_append, h.1, ih h.2]

/-- The tokens of a text that ends in a delimiter, whatever follows. -/
theorem tokens_delimited (hx : x ≠ []) (hz : ∀ e ∈ z.head?, isSpace e = false ∧ e ≠ '*')
    (hquoted : startsQuoted z = startsQuoted x) {xs : List Token} (hlast : ∀ a ∈ xs.getLast?, a.kind.isDelimiter = true)
    (hopen : ∀ u ∈ xs, opensEscape false u.text = false) (hbroken : ∀ u ∈ xs, u.isBroken = false)
    (h : tokens (xs.flatMap Token.text ++ x) = xs ++ tokens x) :
    tokens (xs.flatMap Token.text ++ z) = xs ++ tokens z := by
  rcases List.eq_nil_or_concat xs with rfl | ⟨ys, a, rfl⟩
  · rfl
  have ha := hlast a (by rw [List.concat_eq_append, List.getLast?_concat]; rfl)
  simp only [List.concat_eq_append, List.flatMap_append, List.flatMap_singleton, List.append_assoc,
    List.singleton_append] at h hopen hbroken ⊢
  have hdelimiter : tokens (a.text ++ x) = a :: tokens x := by
    have hsuffix := tokens_suffix h
    rwa [List.flatMap_cons, tokens_text] at hsuffix
  obtain ⟨⟨c, hc, hhead⟩, hafter⟩ := tokens_delimiter ha hx hz hdelimiter
  obtain ⟨p, hp⟩ := List.head?_eq_some_iff.1 hhead
  have hborder (t : Text) : StartsBorder (a.text ++ t) := by
    rw [hp]
    rintro _ ⟨⟩
    exact hc
  have hsame : (a.text ++ x).head? = (a.text ++ z).head? := by rw [hp]; rfl
  have hreplaces : Replaces (a.text ++ x) (a.text ++ z) :=
    ⟨by rw [hp]; exact List.cons_ne_nil _ _, hborder x, hborder z, startsQuoted_congr hquoted _, .inl hsame⟩
  rw [← hdelimiter] at h
  have hys := tokens_replaced hreplaces rfl (opensEscape_flatMap fun u hu => hopen u (List.mem_append_left _ hu))
    (fun u hu => hbroken u (List.mem_append_left _ hu)) (.inr (.inl hsame)) h
  rw [hys.resolve_right fun hdiffer => hdiffer.1 hsame, hafter]

/-! ## Identifiers -/

/-- A name that is written out: at most one hyphen, and a letter, before anything else. -/
def isIdent : Text → Bool
  | '-' :: c :: t => isNameStart c && t.all isNamePart
  | c :: t => isNameStart c && t.all isNamePart
  | [] => false

theorem isNamePart_of_isIdent {t : Text} (h : isIdent t = true) : ∀ c ∈ t, isNamePart c = true := by
  have hstart {c : Char} {s : Text} (hc : isNameStart c = true) (hs : s.all isNamePart = true) :
      ∀ d ∈ c :: s, isNamePart d = true :=
    List.forall_mem_cons.2 ⟨by rw [isNamePart, hc]; rfl, List.all_eq_true.1 hs⟩
  unfold isIdent at h
  split at h
  · rw [Bool.and_eq_true] at h
    exact List.forall_mem_cons.2 ⟨by decide, hstart h.1 h.2⟩
  · rw [Bool.and_eq_true] at h
    exact hstart h.1 h.2
  · cases h

theorem nameLength_append_of_all {t : Text} (h : ∀ c ∈ t, isNamePart c = true) (y : Text) :
    nameLength 0 (t ++ y) = t.length + nameLength 0 y := by
  induction t with
  | nil => rw [List.nil_append, List.length_nil, Nat.zero_add]
  | cons c t ih =>
    rw [List.forall_mem_cons] at h
    rw [List.cons_append, nameLength, if_pos h.1, ih h.2, List.length_cons]
    omega

theorem startsName_of_isNameStart (h : isNameStart c = true) (t : Text) : startsName (c :: t) = true := by
  unfold startsName
  split
  · rename_i heq
    obtain ⟨rfl, rfl⟩ := List.cons.inj heq
    exact absurd h (by decide)
  · rename_i heq
    obtain ⟨rfl, rfl⟩ := List.cons.inj heq
    exact absurd h (by decide)
  · rename_i heq
    obtain ⟨rfl, rfl⟩ := List.cons.inj heq
    exact h
  · contradiction

theorem isAsciiDigit_of_isNameStart (h : isNameStart c = true) : isAsciiDigit c = false := by
  have hle (c d : Char) : c ≤ d ↔ c.toNat ≤ d.toNat := Iff.rfl
  by_contra hdigit
  simp only [isNameStart, isAsciiLetter, isAsciiDigit, hle, Bool.or_eq_true, Bool.and_eq_true, decide_eq_true_eq,
    beq_iff_eq, Bool.not_eq_false, Char.reduceToNat] at h hdigit
  rcases h with ((h | rfl) | rfl) | h
  · omega
  · exact absurd hdigit (by decide)
  · exact absurd hdigit (by decide)
  · omega

/-- The characters that start another token than a name, or one that is not only a name. -/
def signs : List Char :=
  ['"', '\'', '(', '[', '\x7b', ')', ']', '\x7d', ';', ':', ',', '/', '#', '@', '<', '+', '.', '-']

/-- An identifier is read as a name. -/
theorem scan_ident {t : Text} (h : isIdent (c :: t) = true) (y : Text) :
    scan c (t ++ y) = (nameToken (c :: (t ++ y))).map id (· - 1) := by
  have hne {d e : Char} (hd : isNameStart d = true) (he : isNameStart e = false) : d ≠ e := by
    rintro rfl
    rw [hd] at he
    cases he
  unfold isIdent at h
  split at h
  · rename_i d t heq
    obtain ⟨rfl, rfl⟩ := List.cons.inj heq
    rw [Bool.and_eq_true] at h
    have hpoint : d ≠ '.' := hne h.1 (by decide)
    have hdigit : startsUnsigned (d :: (t ++ y)) = false := by
      rw [startsUnsigned]
      · exact isAsciiDigit_of_isNameStart h.1
      · exact fun _ heq => hpoint (List.cons.inj heq).1
    have hhyphen : d ≠ '-' := hne h.1 (by decide)
    have harrow : Text.startsWith (d :: (t ++ y)) ['-', '>'] = false := by
      simp [Text.startsWith, Text.dropStart?, Ne.symm hhyphen]
    have hstarts : startsName ('-' :: d :: (t ++ y)) = true := by simp [startsName, h.1]
    have hspace : isSpace '-' = false := by decide
    have hnumber : isAsciiDigit '-' = false := by decide
    simp [scan, hspace, hnumber, hdigit, harrow, hstarts]
  · rename_i d t _ heq
    obtain ⟨rfl, rfl⟩ := List.cons.inj heq
    rw [Bool.and_eq_true] at h
    have hsigns : ∀ e ∈ signs, c ≠ e := fun e he => hne h.1 ((by decide : ∀ e ∈ signs, isNameStart e = false) e he)
    simp only [signs, List.forall_mem_cons] at hsigns
    have hspace : isSpace c = false := by
      by_contra hspace
      have hborder := isNameStart_of_mem_borders (mem_borders_of_isSpace (by simpa using hspace))
      rw [h.1] at hborder
      cases hborder
    simp [scan, hspace, hsigns, isAsciiDigit_of_isNameStart h.1, startsName_of_isNameStart h.1]
  · cases h

theorem nameToken_ident {t y : Text} (h : isIdent t = true) (hy : nameLength 0 y = 0) (hparen : y.head? ≠ some '(') :
    nameToken (t ++ y) = (.word, t.length) := by
  refine nameToken_of_ne ?_ (by rwa [List.drop_left])
  rw [nameLength_append_of_all (isNamePart_of_isIdent h), hy, Nat.add_zero]

/-- An identifier is a word where no name goes on and no arguments follow. -/
theorem tokens_ident {t y : Text} (h : isIdent t = true) (hy : nameLength 0 y = 0) (hparen : y.head? ≠ some '(') :
    tokens (t ++ y) = ⟨.word, t⟩ :: tokens y := by
  cases t with
  | nil => cases h
  | cons c t =>
    have hscan : scan c (t ++ y) = (.word, t.length) := by
      have htoken : nameToken (c :: (t ++ y)) = (.word, t.length + 1) := nameToken_ident h hy hparen
      rw [scan_ident h, htoken]
      rfl
    rw [List.cons_append, tokens_cons, hscan, List.take_left, List.drop_left]

/-- A token that is no longer than the identifier at the start of the text is the identifier. -/
theorem of_tokens_ident {t y : Text} {u : Token} {us : List Token} (h : isIdent t = true)
    (htokens : tokens (t ++ y) = u :: us) (hle : u.text.length ≤ t.length) :
    nameLength 0 y = 0 ∧ y.head? ≠ some '(' := by
  cases t with
  | nil => cases h
  | cons c t =>
    rw [List.cons_append, tokens_cons] at htokens
    rw [← (List.cons.inj htokens).1, scan_ident h, Prod.map_snd, List.length_cons, List.length_take,
      List.length_append] at hle
    cases y with
    | nil => exact ⟨rfl, nofun⟩
    | cons e y =>
      have hname : nameLength 0 (c :: (t ++ e :: y)) = t.length + 1 + nameLength 0 (e :: y) :=
        nameLength_append_of_all (isNamePart_of_isIdent h) _
      have hlt := nameLength_le_nameToken (c :: (t ++ e :: y))
      rw [List.length_cons, List.length_cons] at hle
      have hzero : nameLength 0 (e :: y) = 0 := by omega
      have hdrop : (c :: (t ++ e :: y)).drop (t.length + 1 + nameLength 0 (e :: y)) = e :: y := by
        rw [hzero, Nat.add_zero, List.drop_succ_cons, List.drop_left]
      refine ⟨hzero, fun hparen => ?_⟩
      obtain rfl := Option.some.inj hparen
      rw [nameToken_of_paren hname hdrop] at hle
      split at hle <;> · dsimp only at hle; omega

/-- One identifier may stand where another stands. -/
theorem tokens_renamed {old new y : Text} {u : Token} {us : List Token} (hold : isIdent old = true)
    (hnew : isIdent new = true) (h : tokens (old ++ y) = u :: us) (hle : u.text.length ≤ old.length) :
    u = ⟨.word, old⟩ ∧ us = tokens y ∧ tokens (new ++ y) = ⟨.word, new⟩ :: tokens y := by
  obtain ⟨hname, hparen⟩ := of_tokens_ident hold h hle
  rw [tokens_ident hold hname hparen] at h
  obtain ⟨rfl, rfl⟩ := List.cons.inj h
  exact ⟨rfl, rfl, tokens_ident hnew hname hparen⟩

end Token

end VendorCss
