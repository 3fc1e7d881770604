import VendorCss.Css.Sheet.Parser
import VendorCss.Proofs.Sheet.Outline
import VendorCss.Proofs.Text.Cuts

/-!
# Statements printed

A statement is taken apart into the fields of a node and the raw text between them; printing puts them together again.
A statement before a semicolon prints without its loose blanks (`render_node_ended`), one at the end of its block and
one before a block print as they are (`render_node_atEnd`, `opening_blockNode`).
-/

namespace VendorCss

/-! ## Nodes with a block -/

namespace Node

/-- A rule or an at-rule with a block. -/
def isBlock (n : Node) : Bool :=
  match n.content with
  | .rule _ => true
  | .atRule r => r.hasBlock
  | _ => false

theorem isBlock_congr {m n : Node} (h : m.content = n.content) : m.isBlock = n.isBlock := by
  rw [isBlock, h]
  rfl

/-- The text of a node with a block up to the bracket that opens it. -/
def opening (n : Node) : Text :=
  match n.content with
  | .rule s => n.raws.before ++ s ++ n.raws.between ++ ['\x7b']
  | .atRule r => n.raws.before ++ '@' :: r.name ++ n.raws.afterName ++ r.params ++ n.raws.between ++ ['\x7b']
  | _ => []

/-- A node with a block prints its opening, its body and the bracket that closes it, whatever follows. -/
theorem render_of_isBlock {n : Node} (h : n.isBlock = true) (body : Text) (semicolon : Bool) :
    n.render body semicolon = n.opening ++ body ++ n.raws.after ++ ['\x7d'] := by
  unfold isBlock at h
  unfold render opening
  split at h <;> simp_all

theorem isComment_of_isBlock {n : Node} (h : n.isBlock = true) : n.isComment = false := by
  unfold isBlock at h
  unfold isComment comment?
  split at h <;> simp_all

/-! ### White space before a node -/

theorem render_withBefore {n : Node} (before : Text) (hb : n.raws.before = []) (hr : n.content ≠ .root) (body : Text)
    (semicolon : Bool) : (n.withBefore before).render body semicolon = before ++ n.render body semicolon := by
  obtain ⟨content, raws, source⟩ := n
  dsimp only at hb
  cases content with
  | root => exact absurd rfl hr
  | declaration =>
    simp only [render, withBefore, hb, List.nil_append, List.append_assoc]
    rfl
  | rule | atRule | comment =>
    simp only [render, withBefore, hb, List.nil_append, List.append_assoc, List.cons_append]

theorem opening_withBefore {n : Node} (before : Text) (hb : n.raws.before = []) (hn : n.isBlock = true) :
    (n.withBefore before).opening = before ++ n.opening := by
  obtain ⟨content, raws, source⟩ := n
  dsimp only at hb
  cases content with
  | root | declaration | comment => cases hn
  | rule | atRule => simp only [opening, withBefore, hb, List.nil_append, List.append_assoc, List.cons_append]

end Node

namespace Statement

/-! ## At-rules -/

/-- The name, the white space after it and the params of an at-rule make up its text. -/
theorem atRule_parts {t : Text} (h : t.trimEnd = t) :
    let rest : Text := t.dropWhile fun c => !endsName c
    t.takeWhile (fun c => !endsName c) ++ rest.leadingBlanks ++ rest.trimStart.trimEnd = t := by
  intro rest
  have hs : rest.trimStart <:+ t := (Text.trimStart_suffix rest).trans (List.dropWhile_suffix _)
  rw [Text.trimEnd_eq_self_of_suffix hs h, List.append_assoc, Text.leadingBlanks_append_trimStart]
  exact List.takeWhile_append_dropWhile

/-- An at-rule prints its text, the white space before its end, and the semicolon that it is told to. -/
theorem render_atRule {t : Text} (h : t.trimEnd = t) (between : Text) (semicolon : Bool) :
    let n := atRule t false
    Node.render { n with raws := { n.raws with between } } [] semicolon =
      '@' :: t ++ between ++ if semicolon then [';'] else [] := by
  have parts := atRule_parts h
  dsimp only at parts
  dsimp only [atRule, Node.render]
  conv_rhs => rw [← parts]
  cases semicolon <;> simp

/-! ## Declarations -/

theorem splitImportant_parts {t : Text} (h : t.trimEnd = t) : (splitImportant t).1 ++ (splitImportant t).2 = t := by
  unfold splitImportant
  rw [h]
  dsimp only
  split
  · rename_i head flag hsplit
    split
    · have hp : head.trimEnd <+: t := by
        rw [Text.splitLast_eq_some hsplit, List.append_assoc]
        exact (List.rdropWhile_prefix _ _).trans (List.prefix_append _ _)
      exact (List.prefix_iff_eq_append.1 hp)
    · exact List.append_nil t
  · exact List.append_nil t

/-- A declaration prints its text. -/
theorem render_declaration {t : Text} (h : t.trimEnd = t) (semicolon : Bool) :
    (declaration t).render [] semicolon = t ++ if semicolon then [';'] else [] := by
  unfold declaration
  split
  · cases semicolon <;> simp [Node.render]
  · rename_i head tail hsplit
    have ht := Text.splitFirst_eq_some hsplit
    have hs : tail.trimStart <:+ t := by
      rw [ht]
      exact (Text.trimStart_suffix tail).trans (List.suffix_append _ _)
    have hi := splitImportant_parts (Text.trimEnd_eq_self_of_suffix hs h)
    -- the flag is printed as it was written, or there is none
    have hflag : ∀ f : Text, (if !!f.isEmpty then ([] : Text) else if f.isEmpty then " !important" else f) = f := by
      intro f
      cases f <;> rfl
    dsimp only [Node.render]
    rw [hflag, List.append_assoc _ _ (splitImportant tail.trimStart).2, hi]
    conv_rhs => rw [ht, ← Text.trimEnd_append_trailingBlanks head, ← Text.leadingBlanks_append_trimStart tail]
    cases semicolon <;> simp

/-! ## Statements -/

/-- A statement before its semicolon prints without its loose blanks. -/
theorem render_node_ended (t : Text) : (node t false).render [] true = (Outline.ended t).kept ++ [';'] := by
  unfold node
  split
  · rename_i rest
    have h := render_atRule (Text.trimEnd_trimEnd rest) (Text.trailingBlanks rest) true
    simp only [splitBlanks, Bool.false_eq_true, ↓reduceIte] at h ⊢
    rw [h, List.cons_append, Text.trimEnd_append_trailingBlanks]
    rfl
  · rename_i ht
    rw [Outline.ended_of_ne ht]
    exact render_declaration (Text.trimEnd_trimEnd t) true

/-- The last statement of its block, less the blanks at its end, prints as it is. -/
theorem render_node_atEnd {t : Text} (h : t.trimEnd = t) : (node t true).render [] false = t := by
  unfold node
  split
  · rename_i rest
    have hr : Text.trimEnd rest = rest := Text.trimEnd_eq_self_of_suffix (List.suffix_cons _ _) h
    have ha : (atRule rest false).render [] false = '@' :: rest ++ [] ++ [] := render_atRule hr [] false
    simp only [splitBlanks, hr, ↓reduceIte]
    rw [ha, List.append_nil, List.append_nil]
  · rw [h, render_declaration h]
    exact List.append_nil t

/-- The text before a block is the opening of its node. -/
theorem opening_blockNode (t : Text) : (blockNode t).opening = t ++ ['\x7b'] := by
  unfold blockNode
  dsimp only [splitBlanks]
  split
  · rename_i rest hrest
    have h : Text.trimEnd rest = rest := Text.trimEnd_eq_self_of_suffix ⟨['@'], hrest.symm⟩ (Text.trimEnd_trimEnd t)
    have parts := atRule_parts h
    dsimp only at parts
    conv_rhs => rw [← Text.trimEnd_append_trailingBlanks t, hrest, ← parts]
    dsimp only [atRule, Node.opening]
    simp
  · conv_rhs => rw [← Text.trimEnd_append_trailingBlanks t]
    simp [Node.opening]

theorem isBlock_blockNode (t : Text) : (blockNode t).isBlock = true := by
  unfold blockNode
  dsimp only
  split <;> rfl

theorem isComment_node (t : Text) (atEnd : Bool) : (node t atEnd).isComment = false := by
  unfold node
  split
  · cases atEnd <;> rfl
  · unfold declaration
    split <;> rfl

theorem content_node (t : Text) (atEnd : Bool) : (node t atEnd).content ≠ .root := by
  unfold node
  split
  · cases atEnd <;> exact Content.noConfusion
  · unfold declaration
    split <;> exact Content.noConfusion

/-! ## The white space before a node -/

theorem before_node (t : Text) (atEnd : Bool) : (node t atEnd).raws.before = [] := by
  unfold node
  split
  · cases atEnd <;> rfl
  · unfold declaration
    split <;> rfl

theorem before_blockNode (t : Text) : (blockNode t).raws.before = [] := by
  unfold blockNode
  dsimp only
  split <;> rfl

end Statement

end VendorCss
