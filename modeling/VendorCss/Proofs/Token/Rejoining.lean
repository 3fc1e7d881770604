import VendorCss.Proofs.Token.Seams

/-!
# Texts joined at a seam

Blanks between a text `k` and a divider are taken out. The tokens that end within `k` stay; what ran into the blanks were
words and blanks, and words and blanks they are without them (`tokens_rejoined`). This needs that `k` does not end in a
backslash that escapes the first of the blanks, and that no string breaks off at a line end among them.
-/

namespace VendorCss

/-- A plain token is a word or a blank. -/
theorem TokenKind.eq_word_of_isPlain {kind : TokenKind} (h : kind.isPlain = true) (hne : kind ≠ .blank) :
    kind = .word := by
  cases kind <;> first | rfl | exact absurd rfl hne | cases h

/-! ## The first token -/

/-- More tokens than the text has characters are never cut. -/
theorem tokensWithin_congr {m n : Nat} {t : Text} (hm : t.length ≤ m) (hn : t.length ≤ n) :
    tokensWithin m t = tokensWithin n t := by
  induction m generalizing n t with
  | zero =>
    obtain rfl := List.length_eq_zero_iff.1 (Nat.le_zero.1 hm)
    cases n <;> rfl
  | succ m ih =>
    cases t with
    | nil => cases n <;> rfl
    | cons c t =>
      cases n with
      | zero => cases hn
      | succ n =>
        rw [List.length_cons] at hm hn
        have hrest : (t.drop (Token.scan c t).2).length ≤ t.length := by
          rw [List.length_drop]
          exact Nat.sub_le _ _
        rw [tokensWithin, tokensWithin]
        dsimp only
        rw [ih (n := n) (by omega) (by omega)]

/-- A text is cut after its first token. -/
theorem tokens_cons (c : Char) (t : Text) :
    tokens (c :: t) = ⟨(Token.scan c t).1, c :: t.take (Token.scan c t).2⟩ :: tokens (t.drop (Token.scan c t).2) := by
  rw [tokens, tokens, List.length_cons, tokensWithin]
  exact congrArg _ (tokensWithin_congr (by rw [List.length_drop]; omega) (Nat.le_refl _))

@[simp] theorem tokens_nil : tokens [] = [] := rfl

namespace Token

section

variable {b k p r y : Text} {c d : Char}

/-- A divider is a token of its own. -/
theorem tokens_divider (hd : isDivider d = true) : ∃ kind, ∀ r, tokens (d :: r) = ⟨kind, [d]⟩ :: tokens r := by
  rcases isDivider_cases hd with rfl | rfl | rfl
  · exact ⟨.semicolon, fun r => tokens_cons _ r⟩
  · exact ⟨.openBracket .curly, fun r => tokens_cons _ r⟩
  · exact ⟨.closeBracket .curly, fun r => tokens_cons _ r⟩

/-! ## Blanks -/

/-- Words, blanks and functions, which start with a name or with any character that has no meaning of its own. -/
def startsFreely (kind : TokenKind) : Bool :=
  match kind with
  | .word | .blank | .function _ => true
  | _ => false

theorem startsFreely_ite {q : Prop} [Decidable q] {x₁ x₂ : TokenKind × Nat} (hpos : q → startsFreely x₁.1 = true)
    (hneg : startsFreely x₂.1 = true) : startsFreely (if q then x₁ else x₂).1 = true := by
  split
  · exact hpos ‹_›
  · exact hneg

theorem startsFreely_nameToken (t : Text) : startsFreely (nameToken t).1 = true := by
  unfold nameToken
  dsimp only
  split
  · split <;> rfl
  · rfl

theorem startsFreely_of_isBlank (hc : isBlank c = true) (t : Text) : startsFreely (scan c t).1 = true := by
  have hne {e : Char} (he : isBlank e = false) : c ≠ e := by
    rintro rfl
    rw [hc] at he
    cases he
  have hname : startsFreely ((nameToken (c :: t)).map id (· - 1)).1 = true := startsFreely_nameToken _
  unfold scan
  refine startsFreely_ite (fun _ => rfl) ?_
  refine startsFreely_ite (fun h => ?_) ?_
  · rcases (by simpa using h : c = '"' ∨ c = '\'') with h | h <;> exact absurd h (hne (by decide))
  iterate 10 refine startsFreely_ite (fun h => absurd h (hne (by decide))) ?_
  iterate 6 refine startsFreely_ite (fun _ => rfl) ?_
  refine startsFreely_ite (fun h => absurd h (hne (by decide))) ?_
  exact startsFreely_ite (fun _ => hname) rfl

/-- A token of blanks is a word or a blank: the parenthesis of a function is none. -/
theorem isPlain_of_forall_isBlank {t : Text} {x : Token} (hx : x ∈ tokens t) (hb : ∀ c ∈ x.text, isBlank c = true) :
    x.kind.isPlain = true := by
  have hfree : (∀ c ∈ x.text.head?, isBlank c = true) → startsFreely x.kind = true :=
    tokensWithin_forall (P := fun x => (∀ c ∈ x.text.head?, isBlank c = true) → startsFreely x.kind = true)
      (fun c t h => startsFreely_of_isBlank (h c rfl) t) t.length t x hx
  have hread := tokens_isRead t x hx
  have hstarts := hfree fun c hc => hb c (List.mem_of_mem_head? hc)
  rw [IsRead] at hread
  unfold startsFreely at hstarts
  split at hstarts
  · rename_i h; rw [h]; rfl
  · rename_i h; rw [h]; rfl
  · rename_i h
    rw [h] at hread
    obtain ⟨raw, htext, -⟩ := hread
    rw [htext] at hb
    exact absurd (hb '(' (List.mem_append_right _ List.mem_cons_self)) (by decide)
  · cases hstarts

theorem isPlain_of_blanks {t : Text} {xs ys : List Token} (h : tokens t = xs ++ ys)
    (hb : ∀ c ∈ xs.flatMap Token.text, isBlank c = true) : ∀ x ∈ xs, x.kind.isPlain = true := fun x hx =>
  isPlain_of_forall_isBlank (h ▸ List.mem_append_left ys hx) fun c hc => hb c (List.mem_flatMap.2 ⟨x, hx, hc⟩)

/-! ## The tokens of a text before a divider -/

/-- A hyphen before a divider is a word. -/
theorem tokens_hyphen (hy : StartsDivider y) : tokens ('-' :: y) = ⟨.word, ['-']⟩ :: tokens y := by
  have hscan : scan '-' y = (.word, 0) := by
    have hunsigned : startsUnsigned y = false := startsUnsigned_append (p := []) hy.startsSeam.endsNumber
    have harrow : Text.startsWith y ['-', '>'] = false := startsWith_append (p := []) (by decide) hy.startsSeam
    have hname := (startsName_divider hy).2
    have hspace : isSpace '-' = false := by decide
    have hdigit : isAsciiDigit '-' = false := by decide
    simp [scan, hunsigned, harrow, hname, hspace, hdigit]
  rw [tokens_cons, hscan]
  rfl

/-- A string that breaks off at a line end is a word. -/
def isBroken (x : Token) : Bool :=
  x.kind == .word && (x.text.head? == some '"' || x.text.head? == some '\'')

theorem stringToken_kind (quote : Char) (skip : Nat) (t : Text) :
    (stringToken quote skip t).1 = .string ∨ (stringToken quote skip t).1 = .word := by
  fun_induction stringToken quote skip t <;> first | exact .inl rfl | exact .inr rfl | assumption

theorem string_of_isBroken {t q : Text} {u : Token} (hu : u = ⟨(scan c t).1, c :: q⟩) (h : u.isBroken = false) :
    (c = '"' || c = '\'') = true → (stringToken c 0 t).1 = .string := by
  intro hc
  have hscan : scan c t = stringToken c 0 t := by
    rcases (by simpa using hc : c = '"' ∨ c = '\'') with rfl | rfl <;> rfl
  rcases stringToken_kind c 0 t with hkind | hkind
  · exact hkind
  · -- a word that starts with a quote is broken
    rw [hu, hscan, isBroken, hkind] at h
    rcases (by simpa using hc : c = '"' ∨ c = '\'') with rfl | rfl <;> cases h

/-- The first of the tokens of a text before a divider, and the rest. -/
theorem tokens_head {s : Text} {u : Token} {xs ts : List Token}
    (htext : (u :: xs).flatMap Token.text = c :: s) (h : tokens (c :: (s ++ d :: r)) = u :: xs ++ ts) :
    let n := (scan c (s ++ d :: r)).2
    u = ⟨(scan c (s ++ d :: r)).1, c :: s.take n⟩ ∧ n ≤ s.length ∧ xs.flatMap Token.text = s.drop n ∧
      tokens (s.drop n ++ d :: r) = xs ++ ts := by
  intro n
  rw [tokens_cons, List.cons_append] at h
  obtain ⟨hu, hxs⟩ := List.cons.inj h
  rw [List.flatMap_cons, ← hu, List.cons_append] at htext
  have hcut := (List.cons.inj htext).2
  have hle : n ≤ s.length := by
    have hlength := congrArg List.length hcut
    rw [List.length_append, List.length_take, List.length_append, List.length_cons] at hlength
    omega
  rw [List.take_append_of_le_length hle] at hu hcut
  rw [List.drop_append_of_le_length hle] at hxs
  exact ⟨hu.symm, hle, List.append_cancel_left (hcut.trans (List.take_append_drop n s).symm), hxs⟩

/-- A token that ends within `p` takes no escape apart. -/
theorem opensEscape_scan {x : Text} (hn : (scan c (p ++ x)).2 ≤ p.length) (hx : x ≠ [])
    (h : startsWithLineEnd x = false ∨ p.drop (scan c (p ++ x)).2 ≠ []) :
    opensEscape false (c :: p) = opensEscape false (p.drop (scan c (p ++ x)).2) := by
  have hsplit : opensEscape false (c :: p) =
      opensEscape (opensEscape false (c :: p.take (scan c (p ++ x)).2)) (p.drop (scan c (p ++ x)).2) := by
    rw [← opensEscape_append, List.cons_append, List.take_append_drop]
  rcases scan_closes c (p ++ x) with hclose | hclose | hclose
  · have hlength := List.length_pos_iff.2 hx
    rw [List.length_cons, List.length_append] at hclose
    omega
  · rw [List.drop_succ_cons, List.drop_append_of_le_length hn] at hclose
    cases hdrop : p.drop (scan c (p ++ x)).2 with
    | nil =>
      rw [hdrop, List.nil_append] at hclose
      rcases h with h | h
      · rw [h] at hclose
        cases hclose
      · exact absurd hdrop h
    | cons e q =>
      have he : e ≠ '\\' := by
        rintro rfl
        rw [hdrop] at hclose
        exact absurd (show isLineEnd '\\' = true from hclose) (by decide)
      rw [hsplit, hdrop, opensEscape_cons he, opensEscape_cons he]
  · rw [List.take_succ_cons, List.take_append_of_le_length hn] at hclose
    rw [hsplit, hclose]

/-- A text before a divider is cut into whole tokens, so it opens no escape. -/
theorem opensEscape_of_tokens (hd : isDivider d = true) {xs : List Token} (hk : xs.flatMap Token.text = k)
    (h : tokens (k ++ d :: r) = xs ++ tokens (d :: r)) : opensEscape false k = false := by
  induction xs generalizing k with
  | nil => rw [← hk]; rfl
  | cons u xs ih =>
    cases k with
    | nil => rfl
    | cons c p =>
      obtain ⟨-, hle, htext, hrest⟩ := tokens_head hk h
      have hline : startsWithLineEnd (d :: r) = false := isLineEnd_of_isDivider hd
      rw [opensEscape_scan hle (List.cons_ne_nil _ _) (.inl hline)]
      exact ih htext hrest

/-- The tokens of a text before blanks and a divider, `xs` with the blanks and `ps ++ zs` without: they agree up to words
and blanks at the end. -/
structure Rejoined (xs : List Token) (k : Text) (ps rest zs : List Token) : Prop where
  parts : xs = ps ++ rest
  text : (ps ++ zs).flatMap Token.text = k
  plain : ∀ x ∈ rest ++ zs, x.kind.isPlain = true
  head : k ≠ [] → (ps ++ zs).head?.map Token.kind = xs.head?.map Token.kind

theorem tokens_rejoined (hb : ∀ c ∈ b, isBlank c = true) (hd : isDivider d = true) (hy : StartsDivider y)
    (hopen : opensEscape false k = false) {xs : List Token} (hbroken : ∀ x ∈ xs, x.isBroken = false)
    (htext : xs.flatMap Token.text = k ++ b) (h : tokens (k ++ (b ++ d :: r)) = xs ++ tokens (d :: r)) :
    ∃ ps rest zs, Rejoined xs k ps rest zs ∧ tokens (k ++ y) = ps ++ zs ++ tokens y := by
  induction xs generalizing k with
  | nil =>
    obtain ⟨rfl, -⟩ := List.append_eq_nil_iff.1 htext.symm
    exact ⟨[], [], [], ⟨rfl, rfl, by simp, fun h => absurd rfl h⟩, rfl⟩
  | cons u xs ih =>
    cases k with
    | nil =>
      refine ⟨[], u :: xs, [], ⟨rfl, rfl, ?_, fun h => absurd rfl h⟩, rfl⟩
      rw [List.append_nil]
      exact isPlain_of_blanks h (htext ▸ hb)
    | cons c p =>
      rw [List.cons_append, ← List.append_assoc] at h
      obtain ⟨hu, hle, hxs, hrest⟩ := tokens_head (s := p ++ b) htext h
      rw [List.append_assoc] at hu hle hxs hrest
      have hagree := scan_seamed hb hd hy hopen (r := r) (string_of_isBroken hu (hbroken u List.mem_cons_self))
        (by rwa [List.length_append] at hle)
      generalize hscan : scan c (p ++ (b ++ d :: r)) = ax at hagree hu hle hxs hrest
      by_cases hn : ax.2 ≤ p.length
      · -- the token ends within `k`
        rw [List.take_append_of_le_length hn] at hu
        rw [List.drop_append_of_le_length hn] at hxs hrest
        have hopen' : opensEscape false (p.drop ax.2) = false := by
          by_cases hdrop : p.drop ax.2 = []
          · rw [hdrop]; rfl
          · rw [← hscan] at hn hdrop ⊢
            rw [← opensEscape_scan hn (by simp) (.inr hdrop), hopen]
        rw [List.append_assoc] at hrest
        obtain ⟨ps, rest, zs, hjoin, htokens⟩ := ih hopen' (fun x hx => hbroken x (List.mem_cons_of_mem _ hx)) hxs hrest
        have hlength : (scan c (p ++ y)).2 = ax.2 := by
          rcases hagree.cut with hcut | ⟨-, hlt, -⟩
          · rw [hcut, Nat.min_eq_left hn]
          · exact absurd hn (Nat.not_le_of_lt hlt)
        refine ⟨u :: ps, rest, zs, ⟨by rw [hjoin.parts]; rfl, ?_, hjoin.plain, fun _ => rfl⟩, ?_⟩
        · rw [List.cons_append, List.flatMap_cons, hjoin.text, hu, List.cons_append, List.take_append_drop]
        · rw [List.cons_append, tokens_cons, hlength, hagree.kind, List.take_append_of_le_length hn,
            List.drop_append_of_le_length hn, htokens, hu]
          rfl
      · -- the token runs into the blanks
        have hlt := Nat.lt_of_not_le hn
        have hu' : u.kind = ax.1 := by rw [hu]
        have hall : ∀ x ∈ u :: xs, x.kind.isPlain = true := by
          refine List.forall_mem_cons.2 ⟨hu' ▸ hagree.plain hlt, isPlain_of_blanks hrest fun e he => ?_⟩
          rw [hxs, List.drop_append, List.drop_eq_nil_of_le (Nat.le_of_lt hlt)] at he
          exact hb e (List.mem_of_mem_drop he)
        rcases hagree.cut with hcut | ⟨hlast, -, hcut⟩
        · rw [Nat.min_eq_right (Nat.le_of_lt hlt)] at hcut
          refine ⟨[], u :: xs, [⟨ax.1, c :: p⟩], ⟨rfl, ?_, ?_, fun _ => ?_⟩, ?_⟩
          · simp
          · rw [List.forall_mem_append]
            exact ⟨hall, List.forall_mem_singleton.2 (hagree.plain hlt)⟩
          · exact congrArg some hu'.symm
          · rw [List.cons_append, tokens_cons, hcut, hagree.kind, List.take_left, List.drop_left]
            rfl
        · -- the hyphen that started a name is a word of its own
          obtain ⟨q, rfl⟩ := List.getLast?_eq_some_iff.1 hlast
          rw [List.length_append, List.length_singleton, Nat.add_sub_cancel] at hcut
          refine ⟨[], u :: xs, [⟨ax.1, c :: q⟩, ⟨.word, ['-']⟩], ⟨rfl, ?_, ?_, fun _ => ?_⟩, ?_⟩
          · simp
          · exact List.forall_mem_append.2
              ⟨hall, List.forall_mem_cons.2 ⟨hagree.plain hlt, List.forall_mem_singleton.2 rfl⟩⟩
          · exact congrArg some hu'.symm
          · rw [List.cons_append, tokens_cons, hcut, hagree.kind, List.append_assoc, List.take_left, List.drop_left,
              List.cons_append, List.nil_append, tokens_hyphen hy]
            rfl

end

end Token

/-! ## Tokens between statements -/

/-- The tokens that are left are those of the text that is left. -/
theorem tokens_suffix {t : Text} {xs ys : List Token} (h : tokens t = xs ++ ys) :
    tokens (ys.flatMap Token.text) = ys := by
  induction xs generalizing t with
  | nil => rw [List.nil_append] at h; rw [← h, tokens_text]
  | cons x xs ih =>
    cases t with
    | nil => cases h
    | cons c t =>
      rw [tokens_cons, List.cons_append] at h
      exact ih (List.cons.inj h).2

theorem text_ne_nil {t : Text} {x : Token} (h : x ∈ tokens t) : x.text ≠ [] :=
  Token.tokensWithin_forall (P := fun x => x.text ≠ []) (fun _ _ => List.cons_ne_nil _ _) t.length t x h

/-- Tokens have characters. -/
theorem flatMap_text_eq_nil {t : Text} {xs ys : List Token} (h : tokens t = xs ++ ys) :
    xs.flatMap Token.text = [] ↔ xs = [] := by
  cases xs with
  | nil => exact ⟨fun _ => rfl, fun _ => rfl⟩
  | cons x xs =>
    refine ⟨fun hnil => ?_, fun hnil => nomatch hnil⟩
    rw [List.flatMap_cons, List.append_eq_nil_iff] at hnil
    exact absurd hnil.1 (text_ne_nil (t := t) (by rw [h]; exact List.mem_cons_self))

namespace Token

/-- What follows a closed comment does not matter to it. -/
theorem commentBody_closed {t : Text} (h : t.take (commentBody t).2 = (commentBody t).1 ++ "*/") (rest : Text) :
    commentBody (t.take (commentBody t).2 ++ rest) = commentBody t := by
  fun_induction commentBody t with
  | case1 => cases h
  | case2 t => rfl
  | case3 c t hne inside n hbody ih =>
    rw [List.take_succ_cons, List.cons_append] at h ⊢
    have htake : t.take n = inside ++ "*/" := (List.cons.inj h).2
    rw [hbody] at ih
    have hstart : c = '*' → (t.take n ++ rest).head? ≠ some '/' := by
      intro hc hhead
      cases t with
      | nil =>
        rw [List.take_nil] at htake
        simp at htake
      | cons e t =>
        cases n with
        | zero => simp at htake
        | succ n =>
          rw [List.take_succ_cons] at hhead
          exact hne t hc (by rw [← Option.some.inj hhead])
    rw [commentBody_cons hstart, ih htake]

theorem commentBody_le (t : Text) : (commentBody t).2 ≤ t.length := by
  fun_induction commentBody t with
  | case1 => exact Nat.le_refl _
  | case2 => simp
  | case3 c t _ inside n h ih =>
    rw [h] at ih
    exact Nat.succ_le_succ ih

/-- White space stays where the text after it starts as it did. -/
theorem scan_space {c : Char} {w rest rest' : Text} (hspace : ∀ e ∈ c :: w, isSpace e = true)
    (h : w = (w ++ rest).takeWhile isSpace) (hhead : rest'.head? = rest.head?) :
    scan c (w ++ rest') = (.blank, w.length) := by
  rw [List.forall_mem_cons] at hspace
  have hrun {z : Text} : (w ++ z).takeWhile isSpace = w ++ z.takeWhile isSpace :=
    List.takeWhile_append_of_pos fun e he => hspace.2 e he
  have hstop : rest'.takeWhile isSpace = [] := by
    rw [hrun] at h
    have h := List.self_eq_append_right.1 h
    cases rest with
    | nil => rw [List.head?_eq_none_iff.1 hhead]; rfl
    | cons e rest =>
      cases rest' with
      | nil => rfl
      | cons e' rest' =>
        rw [Option.some.inj hhead]
        by_cases he : isSpace e = true
        · rw [List.takeWhile_cons_of_pos he] at h
          cases h
        · exact List.takeWhile_cons_of_neg he
  unfold scan
  rw [if_pos hspace.1, hrun, hstop, List.append_nil]

/-- White space and closed comments stay where the text after them starts as it did. -/
theorem tokens_stays {u : Token} {rest rest' : Text} (h : tokens (u.text ++ rest) = u :: tokens rest)
    (hkind : u.kind = .blank ∨ ∃ inside, u.kind = .comment inside ∧ u.isOpenComment = false)
    (hhead : rest'.head? = rest.head?) : tokens (u.text ++ rest') = u :: tokens rest' := by
  have hmem : u ∈ tokens (u.text ++ rest) := h ▸ List.mem_cons_self
  have hread := tokens_isRead _ u hmem
  have hspelled := tokens_isSpelled _ u hmem
  obtain ⟨kind, text⟩ := u
  cases text with
  | nil => exact absurd rfl (text_ne_nil hmem)
  | cons c w =>
    rw [List.cons_append, tokens_cons] at h
    obtain ⟨hscan, htext⟩ := Token.mk.inj (List.cons.inj h).1
    have htake := (List.cons.inj htext).2
    suffices hnew : scan c (w ++ rest') = (kind, w.length) by
      rw [List.cons_append, tokens_cons, hnew, List.take_left, List.drop_left]
    rcases hkind with hblank | ⟨inside, hcomment, hclosed⟩
    · obtain rfl : kind = .blank := hblank
      have hspace : scan c (w ++ rest) = (.blank, ((w ++ rest).takeWhile isSpace).length) := by
        unfold scan
        rw [if_pos (hread c List.mem_cons_self)]
      rw [hspace, ← List.prefix_iff_eq_take.1 (List.takeWhile_prefix isSpace)] at htake
      exact scan_space hread htake.symm hhead
    · obtain rfl : kind = .comment inside := hcomment
      have hmarks : c :: w = "/*" ++ inside ++ "*/" := by simpa [isOpenComment] using hclosed
      obtain ⟨rfl, rfl⟩ := List.cons.inj hmarks
      have hinside : (commentBody (inside ++ "*/" ++ rest)).1 = inside := TokenKind.comment.inj hscan
      have hle := commentBody_le (inside ++ "*/" ++ rest)
      have hbody : (inside ++ "*/" ++ rest).take (commentBody (inside ++ "*/" ++ rest)).2 = inside ++ "*/" :=
        (List.cons.inj htake).2
      have hlength := congrArg List.length hbody
      rw [List.length_take, Nat.min_eq_left hle] at hlength
      have hclose := commentBody_closed (hbody.trans (by rw [hinside])) rest'
      rw [hbody] at hclose
      show scan '/' ('*' :: (inside ++ "*/" ++ rest')) = _
      rw [scan_slash_star, hclose, hinside, hlength]
      rfl

end Token

end VendorCss
