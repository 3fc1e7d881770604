import VendorCss.Options
import VendorCss.Proofs.PlannedNames

/-!
# Names of flexbox

A dialect writes a name of flexbox for properties of flexbox only (`PropertyDialect.eq_or_start_of_writes`), and one of
the draft of 2009 only for a prefix that speaks this draft (`PropertyDialect.draft_of_writes`). Where prefixes with the
note of 2009 are not planned, these are the prefixes of `-moz-` (`FlexDraft.vendor_of_year2009`).
-/

namespace VendorCss

namespace Flexbox

open PropertyDialect in
/-- The dialects of the properties of flexbox. -/
def dialects : List PropertyDialect :=
  [flex, order, flexFlow, flexDirection, flexGrow, flexWrap, flexShrink, flexBasis, alignItems, alignSelf, alignContent,
   justifyContent]

/-- A name without vendor belongs to flexbox, in one of its drafts. -/
def isName (name : Text) : Bool := dialects.contains (PropertyDialect.ofName name)

/-- The names that the draft of 2009 had for itself. -/
def names2009 : List Text :=
  ["box-flex", "box-orient", "box-direction", "box-pack", "box-align", "box-ordinal-group"]

/-- How the names of flexbox begin. -/
def starts : List Text := ["fle", "ord", "box", "ali", "jus"]

theorem start_of_isName {name : Text} (h : isName name = true) : name.take 3 ∈ starts := by
  have hall : ∀ d ∈ dialects, ∀ name ∈ d.family, name.take 3 ∈ starts := by
    intro d
    rw [d.spelledFamily.2]
    revert d
    decide
  have hdialect : PropertyDialect.ofName name ∈ dialects := List.contains_iff_mem.1 h
  rcases PropertyDialect.mem_family_ofName name with hplain | hmem
  · rw [hplain] at hdialect
    exact absurd hdialect (by decide)
  · exact hall _ hdialect name hmem

theorem start_of_names2009 {name : Text} (h : name ∈ names2009) : name.take 3 = "box" := by
  have hall : ∀ name ∈ names2009, name.take 3 = "box" := by decide
  exact hall name h

end Flexbox

namespace Vendor

variable {vendor planned : Text}

/-- Without its vendor, a name with a planned prefix before it is that name, or has the note in front. -/
theorem IsFor.unprefixed_append (h : IsVendor vendor) (hplanned : IsFor planned vendor) (name : Text) :
    unprefixed (planned ++ name) = name ∨ ∃ t, unprefixed (planned ++ name) = ' ' :: t := by
  rcases hplanned with rfl | ⟨note, rfl⟩
  · exact .inl (Vendor.unprefixed_append h name)
  · right
    rw [List.append_assoc, Vendor.unprefixed_append h]
    exact ⟨note ++ name, rfl⟩

end Vendor

namespace PropertyDialect

open Vendor Flexbox

variable {prop planned vendor spelled : Text}

/-- The planned prefix before a name does not make a name of flexbox. -/
theorem eq_or_start_append (h : IsVendor vendor) (hplanned : IsFor planned vendor) {rest : Text}
    (hrest : rest = prop ∨ rest.take 3 ∉ starts) :
    unprefixed (planned ++ rest) = prop ∨ (unprefixed (planned ++ rest)).take 3 ∉ starts := by
  rcases hplanned.unprefixed_append h rest with heq | ⟨t, heq⟩
  · rwa [heq]
  · right
    rw [heq]
    intro hmem
    have hspace : ∀ s ∈ starts, s.head? ≠ some ' ' := by decide
    exact hspace _ hmem rfl

/-- The name of a property that is not of flexbox is its own, or begins in another way than those of flexbox. -/
theorem eq_or_start_prefixed (h : IsVendor vendor) (hplanned : IsFor planned vendor) (hname : isName prop = false) :
    unprefixed ((ofName prop).prefixed prop planned) = prop ∨
      (unprefixed ((ofName prop).prefixed prop planned)).take 3 ∉ starts := by
  have happend : ∀ rest : Text, rest = prop ∨ rest.take 3 ∉ starts →
      unprefixed (planned ++ rest) = prop ∨ (unprefixed (planned ++ rest)).take 3 ∉ starts :=
    fun rest => eq_or_start_append h hplanned
  have hown := happend prop (.inl rfl)
  have hdialect : ofName prop ∉ dialects := by
    rw [← List.contains_iff_mem, Bool.not_eq_true]
    exact hname
  have hmem := mem_family_ofName prop
  generalize ofName prop = dialect at hdialect hmem ⊢
  cases dialect
  case gridStart =>
    have hall : ∀ p ∈ gridStart.family,
        (unprefixed (Text.replaceFirst "-start" [] ("-ms-".toList ++ p))).take 3 ∉ starts := by
      rw [gridStart.spelledFamily.2]
      decide
    simp only [prefixed]
    split
    · rename_i hms
      rw [hms]
      exact .inr (hall prop (hmem.resolve_left (by decide)))
    · exact hown
  case maskBorder =>
    have hall : ∀ p ∈ maskBorder.family, (unprefixed
        (Text.replace "mask-border" "mask-box-image" ("-webkit-".toList ++ p))).take 3 ∉ starts := by
      rw [maskBorder.spelledFamily.2]
      decide
    simp only [prefixed]
    split
    · rename_i hwebkit
      rw [hwebkit]
      exact .inr (hall prop (hmem.resolve_left (by decide)))
    · exact hown
  case columnBreak =>
    have hcolumn : (("column-" : Text) ++ prop).take 3 ∉ starts := by
      have htake : (("column-" : Text) ++ prop).take 3 = "col" := rfl
      rw [htake]
      decide
    simp only [prefixed, List.append_assoc]
    exact happend _ (.inr hcolumn)
  case borderRadius =>
    have hall : ∀ p ∈ borderRadius.family, (renamed mozillaCorners p).take 3 ∉ starts := by
      rw [borderRadius.spelledFamily.2]
      decide
    simp only [prefixed]
    split
    · exact happend _ (.inr (hall prop (hmem.resolve_left (by decide))))
    · exact hown
  case blockLogical =>
    have hall : ∀ p ∈ blockLogical.family, (if p.contains "-start" then Text.replaceFirst "-block-start" "-before" p
        else Text.replaceFirst "-block-end" "-after" p).take 3 ∉ starts := by
      rw [blockLogical.spelledFamily.2]
      decide
    exact happend _ (.inr (hall prop (hmem.resolve_left (by decide))))
  case inlineLogical =>
    have hall : ∀ p ∈ inlineLogical.family, (Text.replaceFirst "-inline" [] p).take 3 ∉ starts := by
      rw [inlineLogical.spelledFamily.2]
      decide
    exact happend _ (.inr (hall prop (hmem.resolve_left (by decide))))
  case imageRendering =>
    simp only [prefixed]
    split
    · exact .inr (by decide)
    · exact hown
  case printColorAdjust =>
    simp only [prefixed]
    split
    · exact .inr (by decide)
    · exact happend _ (.inr (by decide))
  case overscrollBehavior => exact happend _ (.inr (by decide))
  case gridRowAlign => exact happend _ (.inr (by decide))
  case gridColumnAlign => exact happend _ (.inr (by decide))
  all_goals first | exact hown | exact absurd hdialect (by decide)

/-- The same for all names that its dialect writes, but those of the first draft of grid. -/
theorem eq_or_start_of_writes (h : IsVendor vendor) (hplanned : IsFor planned vendor) (hname : isName prop = false)
    (hgrid : (ofName prop).writesGrid = true →
      ofName prop = placeSelf ∨ spelled = (ofName prop).prefixed prop planned)
    (hwrites : (ofName prop).Writes prop planned spelled) :
    unprefixed spelled = prop ∨ (unprefixed spelled).take 3 ∉ starts := by
  have hdialect : ofName prop ∉ dialects := by
    rw [← List.contains_iff_mem, Bool.not_eq_true]
    exact hname
  cases hwrites with
  | name => exact eq_or_start_prefixed h hplanned hname
  | skip => exact eq_or_start_append h hplanned (.inr (by decide))
  | box hbox =>
    rcases hbox with hbox | hbox <;> rw [hbox] at hdialect <;> exact absurd hdialect (by decide)
  | composite => exact eq_or_start_append h hplanned (.inr (by decide))
  | grid hwrites _ hnames =>
    have hall : ∀ name ∈ (["grid-row-align", "grid-column-align"] : List Text),
        (unprefixed ("-ms-" ++ name)).take 3 ∉ starts := by decide
    rcases hgrid hwrites with hplace | heq
    · exact .inr (hall _ (hnames hplace))
    · rw [heq]
      exact eq_or_start_prefixed h hplanned hname

/-- A name of the draft of 2009 is written for this draft, or the property has it itself. -/
theorem draft_of_writes (h : IsVendor vendor) (hplanned : IsFor planned vendor) (hname : isName prop = true)
    (hwrites : (ofName prop).Writes prop planned spelled) (h2009 : unprefixed spelled ∈ names2009) :
    prop ∈ names2009 ∨ FlexDraft.of? planned = some .year2009 := by
  have hdialect : ofName prop ∈ dialects := List.contains_iff_mem.1 hname
  have hflex : ∀ names : FlexNames, (∀ name ∈ names.year2012, name.take 3 ≠ "box") →
      unprefixed (names.prefixed prop planned) ∈ names2009 →
        prop ∈ names2009 ∨ FlexDraft.of? planned = some .year2009 := by
    intro names h2012 hmem
    rw [FlexNames.prefixed, hplanned.vendorPart h, unprefixed_append h] at hmem
    split at hmem
    · exact .inr ‹_›
    · cases hlater : names.year2012 with
      | none =>
        rw [hlater] at hmem
        exact .inl hmem
      | some name =>
        rw [hlater, Option.getD_some] at hmem
        exact absurd (start_of_names2009 hmem) (h2012 name hlater)
    · exact .inl hmem
  cases hwrites with
  | name =>
    generalize ofName prop = dialect at hdialect h2009
    simp only [dialects, List.mem_cons, List.not_mem_nil, or_false] at hdialect
    rcases hdialect with rfl | rfl | rfl | rfl | rfl | rfl | rfl | rfl | rfl | rfl | rfl | rfl <;>
      exact hflex _ (by decide) h2009
  | skip hskip => rw [hskip] at hdialect; exact absurd hdialect (by decide)
  | box _ hdraft => exact .inr hdraft
  | composite hmask => rw [hmask] at hdialect; exact absurd hdialect (by decide)
  | grid hgrid =>
    have hall : ∀ d ∈ dialects, d.writesGrid = false := by decide
    rw [hall _ hdialect] at hgrid
    cases hgrid

end PropertyDialect

namespace FlexDraft

open Vendor

variable {vendor planned : Text}

/-- Without the note of 2009 only `-moz-` speaks the draft of 2009. -/
theorem vendor_of_year2009 (h : IsVendor vendor) (hplanned : IsFor planned vendor)
    (hno : Text.contains planned "2009" = false) (hdraft : of? planned = some .year2009) : vendor = "-moz-" := by
  have hnote : note? planned ≠ some "2009" := by
    intro hnote
    have hword : ("2009" : Text) ∈ Text.words planned := List.mem_of_find?_eq_some hnote
    have hcontains : Text.contains planned "2009" = true := Text.contains_iff.2 (Text.infix_of_mem_words hword)
    rw [hno] at hcontains
    cases hcontains
  have hmoz : vendorPart planned = "-moz-" := by
    by_contra hne
    unfold of? ofVendor? at hdraft
    simp only [hnote, hne, ↓reduceIte] at hdraft
    split at hdraft
    · cases hdraft
    · repeat' split at hdraft
      all_goals cases hdraft
  rw [← hmoz, hplanned.vendorPart h]

end FlexDraft

end VendorCss
