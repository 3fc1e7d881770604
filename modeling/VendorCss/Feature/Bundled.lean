import VendorCss.Feature.Table

/-!
# The bundled capability table

The features that needed a vendor prefix and the browsers that needed it, as the library knows them without a document.
An entry names a browser, a version or a range of versions, and sometimes a note about the syntax that it understood.
-/

namespace VendorCss.CapabilityTable

/-- The entries of the browsers that understand `@supports`. -/
def bundledFeatureQueries : List Text :=
  ["and_chr 131", "and_ff 132", "and_qq 14.9", "and_uc 15.5", "android 4.4..131", "baidu 13.52", "chrome 28..131",
   "edge 12..131", "firefox 22..133", "ios_saf 9..18.1", "kaios 2.5..3", "op_mob 12.1..80", "opera 12.1",
   "opera 15..114", "safari 9..18.1", "samsung 4..27"]

/-- The features known without a document. -/
def bundledEntries : List FeatureEntry :=
  [ { feature := "border-radius",
      names := ["border-radius", "border-top-left-radius", "border-top-right-radius", "border-bottom-right-radius",
        "border-bottom-left-radius"],
      browsers := ["android 2.1", "chrome 4", "firefox 2..3.6", "ios_saf 3.2", "safari 3.1..4"],
      mistakes := ["-khtml-", "-ms-", "-o-"] },
    { feature := "css-boxshadow",
      names := ["box-shadow"],
      browsers := ["android 2.1..3", "chrome 4..9", "firefox 3.5..3.6", "ios_saf 3.2..4.2", "safari 3.1..5"],
      mistakes := ["-khtml-"] },
    { feature := "css-animation",
      names := ["animation", "animation-name", "animation-duration", "animation-delay", "animation-direction",
        "animation-fill-mode", "animation-iteration-count", "animation-play-state", "animation-timing-function",
        "@keyframes"],
      browsers := ["android 2.1..4.4", "bb 7..10", "chrome 4..42", "firefox 5..15", "ios_saf 3.2..8.1",
        "op_mob 12..12.1", "opera 12", "opera 15..29", "safari 4..8"],
      mistakes := ["-khtml-", "-ms-"] },
    { feature := "css-transitions",
      names := ["transition", "transition-property", "transition-duration", "transition-delay",
        "transition-timing-function"],
      browsers := ["android 2.1..4.3", "bb 7", "chrome 4..25", "firefox 4..15", "ios_saf 3.2..6", "opera 10.5..12",
        "safari 3.1..6"],
      mistakes := ["-khtml-", "-ms-"] },
    { feature := "transforms2d",
      names := ["transform", "transform-origin"],
      browsers := ["android 2.1..4.4", "bb 7..10", "chrome 4..35", "firefox 3.5..15", "ie 9", "ios_saf 3.2..8.1",
        "opera 10.5..12.1", "opera 15..22", "safari 3.1..8"] },
    { feature := "transforms3d",
      names := ["perspective", "perspective-origin", "transform-style"],
      browsers := ["android 3..4.4", "bb 7..10", "chrome 12..35", "firefox 10..15", "ios_saf 3.2..8.1",
        "opera 15..22", "safari 4..8"] },
    { feature := "transforms3d",
      names := ["backface-visibility"],
      browsers := ["android 3..4.4", "bb 7..10", "chrome 12..35", "firefox 10..15", "ios_saf 3.2..15.2",
        "opera 15..22", "safari 4..15.2"],
      mistakes := ["-ms-", "-o-"] },
    { feature := "css-gradients",
      names := ["linear-gradient", "repeating-linear-gradient", "radial-gradient", "repeating-radial-gradient"],
      browsers := ["android 2.1..3 old", "android 4..4.2", "bb 7 old", "bb 10", "chrome 4..9 old", "chrome 10..25",
        "firefox 3.6..15", "ios_saf 3.2..4.2 old", "ios_saf 5..6", "op_mob 12..12.1", "opera 11.1..12",
        "safari 3.1..4 old", "safari 5.1..6"],
      mistakes := ["-ms-"],
      props := some ["background", "background-image", "border-image", "mask", "list-style", "list-style-image",
        "content", "mask-image"] },
    { feature := "css3-boxsizing",
      names := ["box-sizing"],
      browsers := ["android 2.1..3", "chrome 4..9", "firefox 2..28", "ios_saf 3.2..4.2", "safari 3.1..5"] },
    { feature := "css-filters",
      names := ["filter"],
      browsers := ["android 4.4..4.4", "bb 10", "chrome 18..52", "ios_saf 6..9.3", "opera 15..39", "safari 6..9.1",
        "samsung 4..5"] },
    { feature := "css-filter-function",
      names := ["filter-function"],
      browsers := ["ios_saf 9.3..18.1", "safari 9.1..18.1"],
      props := some ["background", "background-image", "border-image", "mask", "list-style", "list-style-image",
        "content", "mask-image"] },
    { feature := "css-backdrop-filter",
      names := ["backdrop-filter"],
      browsers := ["edge 17..18", "ios_saf 9..17.6", "safari 9..17.6"] },
    { feature := "css-element-function",
      names := ["element"],
      browsers := ["and_ff 132", "firefox 2..133"],
      props := some ["background", "background-image", "border-image", "mask", "list-style", "list-style-image",
        "content", "mask-image"] },
    { feature := "multicolumn",
      names := ["columns", "column-width", "column-gap", "column-rule", "column-rule-color", "column-rule-width",
        "column-count", "column-rule-style", "column-span", "column-fill"],
      browsers := ["android 2.1..4.4", "bb 7..10", "chrome 4..49", "firefox 2..51", "ios_saf 3.2..8.1",
        "opera 15..36", "safari 3.1..8", "samsung 4"] },
    { feature := "multicolumn",
      names := ["break-before", "break-after", "break-inside"],
      browsers := ["android 2.1..4.4", "bb 7..10", "chrome 4..49", "ios_saf 3.2..8.1", "opera 15..36",
        "safari 3.1..8", "samsung 4"] },
    { feature := "user-select-none",
      names := ["user-select"],
      browsers := ["and_uc 15.5", "android 2.1..4.4", "bb 7..10", "chrome 4..53", "edge 12..18", "firefox 2..68",
        "ie 10..11", "ios_saf 3.2..18.1", "opera 15..40", "safari 3.1..18.1", "samsung 4..5"],
      mistakes := ["-khtml-"] },
    { feature := "flexbox",
      names := ["display-flex", "inline-flex"],
      browsers := ["android 2.1..4.3 2009", "android 4.4", "bb 7 2009", "bb 10", "chrome 4..20 2009",
        "chrome 21..28", "firefox 2..21", "ie 10", "ios_saf 3.2..6 2009", "ios_saf 7..8.1", "opera 15..16",
        "safari 3.1..6 2009", "safari 6.1..8"],
      props := some ["display"] },
    { feature := "flexbox",
      names := ["flex", "flex-grow", "flex-shrink", "flex-basis", "flex-direction", "flex-wrap", "flex-flow",
        "justify-content", "order", "align-items", "align-self", "align-content"],
      browsers := ["android 2.1..4.3 2009", "android 4.4", "bb 7 2009", "bb 10", "chrome 4..20 2009",
        "chrome 21..28", "firefox 2..21", "ie 10", "ios_saf 3.2..6 2009", "ios_saf 7..8.1", "opera 15..16",
        "safari 3.1..6 2009", "safari 6.1..8"] },
    { feature := "calc",
      names := ["calc"],
      browsers := ["chrome 19..25", "firefox 4..15", "ios_saf 6..6", "safari 6..6.1"],
      props := some ["*"] },
    { feature := "background-img-opts",
      names := ["background-origin", "background-size"],
      browsers := ["android 2.1..2.3", "firefox 3.6", "ios_saf 3.2", "safari 3.1..4"] },
    { feature := "background-clip-text",
      names := ["background-clip"],
      browsers := ["and_chr 131", "and_uc 15.5", "android 4.4..131", "chrome 4..119", "edge 12..18", "edge 79..119",
        "ios_saf 3.2..18.1", "opera 15..105", "safari 3.1..18.1", "samsung 4..23"] },
    { feature := "font-feature",
      names := ["font-feature-settings", "font-variant-ligatures", "font-language-override"],
      browsers := ["android 4.4", "chrome 16..47", "firefox 4..33", "opera 15..34", "safari 4..9.1"] },
    { feature := "font-kerning",
      names := ["font-kerning"],
      browsers := ["chrome 29..32", "ios_saf 7..8", "opera 16..19", "safari 7..8"] },
    { feature := "border-image",
      names := ["border-image"],
      browsers := ["android 2.1..4.3", "chrome 4..15", "firefox 3.5..14", "ios_saf 3.2..5", "opera 11..12.1",
        "safari 3.1..5.1"],
      mistakes := ["-ms-"] },
    { feature := "css-selection",
      names := ["::selection"],
      browsers := ["firefox 2..61"],
      selector := true },
    { feature := "css-placeholder",
      names := ["::placeholder"],
      browsers := ["android 2.1..4.4", "chrome 4..56", "edge 12..18", "firefox 4..18 old", "firefox 19..50",
        "ie 10..11 old", "ios_saf 3.2..10", "opera 15..43", "safari 3.1..10", "samsung 4..6.2"],
      selector := true },
    { feature := "css-placeholder-shown",
      names := [":placeholder-shown"],
      browsers := ["edge 12..18", "firefox 4..50", "ie 10..11"],
      selector := true },
    { feature := "css-hyphens",
      names := ["hyphens"],
      browsers := ["edge 12..18", "firefox 6..42", "ie 10..11", "ios_saf 4.2..16.6", "safari 5.1..16.6"] },
    { feature := "fullscreen",
      names := [":fullscreen"],
      browsers := ["chrome 15..70", "edge 12..18", "firefox 9..63", "ie 11", "opera 15..57", "safari 5.1..16.3"],
      selector := true },
    { feature := "fullscreen",
      names := ["::backdrop"],
      browsers := ["chrome 32..36", "edge 12..18", "ie 11", "opera 19..23"],
      selector := true },
    { feature := "file-selector-button",
      names := ["::file-selector-button"],
      browsers := ["android 2.1..4.4", "chrome 4..88", "edge 12..18", "edge 79..88", "ios_saf 3.2..14",
        "opera 15..74", "safari 3.1..14", "samsung 4..14"],
      selector := true },
    { feature := "css-autofill",
      names := [":autofill"],
      browsers := ["and_chr 131", "and_uc 15.5", "android 2.1..131", "chrome 4..109", "edge 79..109",
        "ios_saf 3.2..14.5", "opera 15..95", "safari 3.1..14.1", "samsung 4..20"],
      selector := true },
    { feature := "css3-tabsize",
      names := ["tab-size"],
      browsers := ["firefox 4..90", "opera 10.6..12.1"] },
    { feature := "intrinsic-width",
      names := ["max-content", "min-content"],
      browsers := ["android 4.4", "chrome 22..45", "firefox 3..65", "ios_saf 6.1..10.3", "opera 15..32",
        "safari 6.1..10.1"],
      props := some ["width", "min-width", "max-width", "height", "min-height", "max-height", "inline-size",
        "min-inline-size", "max-inline-size", "block-size", "min-block-size", "max-block-size", "grid",
        "grid-template", "grid-template-rows", "grid-template-columns", "grid-auto-columns", "grid-auto-rows"] },
    { feature := "intrinsic-width",
      names := ["fit-content"],
      browsers := ["and_ff 132", "android 4.4", "chrome 22..45", "firefox 3..93", "ios_saf 6.1..10.3",
        "opera 15..32", "safari 6.1..10.1"],
      props := some ["width", "min-width", "max-width", "height", "min-height", "max-height", "inline-size",
        "min-inline-size", "max-inline-size", "block-size", "min-block-size", "max-block-size", "grid",
        "grid-template", "grid-template-rows", "grid-template-columns", "grid-auto-columns", "grid-auto-rows"] },
    { feature := "css-width-stretch",
      names := ["fill", "fill-available", "stretch"],
      browsers := ["and_chr 131", "and_ff 132", "and_uc 15.5", "android 4.4..131", "chrome 22..131", "edge 79..131",
        "firefox 3..133", "ios_saf 7..18.1", "opera 15..114", "safari 6.1..18.1", "samsung 4..27"],
      props := some ["width", "min-width", "max-width", "height", "min-height", "max-height", "inline-size",
        "min-inline-size", "max-inline-size", "block-size", "min-block-size", "max-block-size", "grid",
        "grid-template", "grid-template-rows", "grid-template-columns", "grid-auto-columns", "grid-auto-rows"] },
    { feature := "css3-cursors-newer",
      names := ["zoom-in", "zoom-out"],
      browsers := ["chrome 4..36", "firefox 2..23", "opera 15..23", "safari 3.1..8"],
      props := some ["cursor"] },
    { feature := "css3-cursors-grab",
      names := ["grab", "grabbing"],
      browsers := ["chrome 4..67", "firefox 2..26", "opera 15..54", "safari 3.1..10.1"],
      props := some ["cursor"] },
    { feature := "css-sticky",
      names := ["sticky"],
      browsers := ["ios_saf 6..12.2", "safari 6.1..12.1"],
      props := some ["position"] },
    { feature := "pointer",
      names := ["touch-action"],
      browsers := ["ie 10"] },
    { feature := "text-decoration",
      names := ["text-decoration-style", "text-decoration-color", "text-decoration-line"],
      browsers := ["firefox 6..35", "ios_saf 8..12.2", "safari 7.1..12.1"] },
    { feature := "text-decoration",
      names := ["text-decoration"],
      browsers := ["ios_saf 8..18.1", "safari 7.1..18.1"] },
    { feature := "text-decoration",
      names := ["text-decoration-skip", "text-decoration-skip-ink"],
      browsers := ["ios_saf 8..15.2", "safari 7.1..15.3"] },
    { feature := "text-size-adjust",
      names := ["text-size-adjust"],
      browsers := ["edge 12..18", "ios_saf 5..18.1"] },
    { feature := "css-masks",
      names := ["mask-clip", "mask-composite", "mask-image", "mask-origin", "mask-repeat", "mask-border-repeat",
        "mask-border-source", "mask", "mask-position", "mask-size", "mask-border", "mask-border-outset",
        "mask-border-width", "mask-border-slice"],
      browsers := ["and_uc 15.5", "android 2.1..4.4", "chrome 4..119", "edge 79..119", "ios_saf 3.2..15.2",
        "opera 15..105", "safari 3.1..15.3", "samsung 4..23"] },
    { feature := "css-clip-path",
      names := ["clip-path"],
      browsers := ["android 4.4", "chrome 24..54", "ios_saf 7..13", "opera 15..41", "safari 7..13", "samsung 4..5"] },
    { feature := "css-boxdecorationbreak",
      names := ["box-decoration-break"],
      browsers := ["and_chr 131", "and_uc 15.5", "android 4.4..131", "chrome 22..131", "edge 79..131",
        "ios_saf 7..18.1", "opera 15..114", "safari 6.1..18.1", "samsung 4..27"] },
    { feature := "object-fit",
      names := ["object-fit", "object-position"],
      browsers := ["opera 10.6..12.1"] },
    { feature := "css-shapes",
      names := ["shape-margin", "shape-outside", "shape-image-threshold"],
      browsers := ["ios_saf 8..10", "safari 7.1..10"] },
    { feature := "text-overflow",
      names := ["text-overflow"],
      browsers := ["opera 9..10.1"] },
    { feature := "css-deviceadaptation",
      names := ["@viewport"],
      browsers := ["edge 12..18", "ie 10..11", "opera 11.1..12.1"] },
    { feature := "css-media-resolution",
      names := ["@resolution"],
      browsers := ["android 2.1..4.3", "chrome 4..28", "firefox 3.5..15", "ios_saf 3.2..15.2", "opera 9.5..12.1",
        "safari 3.1..15.3"] },
    { feature := "css-text-align-last",
      names := ["text-align-last"],
      browsers := ["firefox 12..48"] },
    { feature := "css-crisp-edges",
      names := ["pixelated"],
      browsers := ["firefox 3.6..64", "opera 11.6..12.1", "safari 6..9.1"],
      props := some ["image-rendering"] },
    { feature := "css-crisp-edges",
      names := ["image-rendering"],
      browsers := ["ie 7..11"] },
    { feature := "css-logical-props",
      names := ["border-inline-start", "border-inline-end", "margin-inline-start", "margin-inline-end",
        "padding-inline-start", "padding-inline-end"],
      browsers := ["android 2.1..4.4", "chrome 4..68", "firefox 2..40", "ios_saf 3.2..12", "safari 3.1..12"] },
    { feature := "css-logical-props",
      names := ["border-block-start", "border-block-end", "margin-block-start", "margin-block-end",
        "padding-block-start", "padding-block-end"],
      browsers := ["android 2.1..4.4", "chrome 4..68", "ios_saf 3.2..12", "safari 3.1..12"] },
    { feature := "css-appearance",
      names := ["appearance"],
      browsers := ["and_uc 15.5", "android 2.1..4.4", "chrome 4..83", "edge 12..18", "edge 79..83", "firefox 2..79",
        "ios_saf 3.2..15.2", "opera 15..69", "safari 3.1..15.3", "samsung 4..13"] },
    { feature := "css-snappoints",
      names := ["scroll-snap-type", "scroll-snap-coordinate", "scroll-snap-destination", "scroll-snap-points-x",
        "scroll-snap-points-y"],
      browsers := ["edge 12..18", "ie 10..11", "ios_saf 9..10.3", "safari 9..10.1"] },
    { feature := "css-regions",
      names := ["flow-into", "flow-from", "region-fragment"],
      browsers := ["edge 12..18", "ie 10..11", "ios_saf 7..10.3", "safari 6.1..10.1"] },
    { feature := "css-image-set",
      names := ["image-set"],
      browsers := ["and_uc 15.5", "android 4.4..4.4", "chrome 21..112", "edge 79..112", "ios_saf 6..13.4",
        "opera 15..98", "safari 6..13.1", "samsung 4..22"],
      props := some ["background", "background-image", "border-image", "cursor", "mask", "mask-image", "list-style",
        "list-style-image", "content"] },
    { feature := "css-writing-mode",
      names := ["writing-mode"],
      browsers := ["android 3..4.4", "chrome 8..47", "edge 12..18", "ie 9..11", "ios_saf 5..10.3", "opera 15..34",
        "safari 5.1..10.1"] },
    { feature := "css-cross-fade",
      names := ["cross-fade"],
      browsers := ["and_chr 131", "and_uc 15.5", "android 4.4..131", "chrome 17..131", "edge 79..131",
        "ios_saf 5..9.3", "opera 15..114", "safari 5.1..9.1", "samsung 4..27"],
      props := some ["background", "background-image", "border-image", "mask", "list-style", "list-style-image",
        "content", "mask-image"] },
    { feature := "css-read-only-write",
      names := [":read-only", ":read-write"],
      browsers := ["firefox 3..77"],
      selector := true },
    { feature := "text-emphasis",
      names := ["text-emphasis", "text-emphasis-position", "text-emphasis-style", "text-emphasis-color"],
      browsers := ["and_uc 15.5", "android 4.4..98", "chrome 25..98", "edge 79..98", "opera 15..84", "samsung 4..17"] },
    { feature := "css-grid",
      names := ["display-grid", "inline-grid"],
      browsers := ["edge 12..15", "ie 10..11"],
      props := some ["display"] },
    { feature := "css-grid",
      names := ["grid-template-columns", "grid-template-rows", "grid-row-start", "grid-column-start", "grid-row-end",
        "grid-column-end", "grid-row", "grid-column", "grid-area", "grid-template", "grid-template-areas",
        "place-self", "grid-column-align", "grid-row-align"],
      browsers := ["edge 12..15", "ie 10..11"] },
    { feature := "css-text-orientation",
      names := ["text-orientation"],
      browsers := ["ios_saf 10..13.3", "safari 10.1..13.1"] },
    { feature := "css-any-link",
      names := [":any-link"],
      browsers := ["chrome 4..64", "firefox 2..49", "ios_saf 3.2..8.1", "opera 15..51", "safari 3.1..8"],
      selector := true },
    { feature := "css-unicode-bidi",
      names := ["isolate"],
      browsers := ["chrome 16..47", "firefox 10..49", "opera 15..34", "safari 6..10.1"],
      props := some ["unicode-bidi"] },
    { feature := "css-unicode-bidi",
      names := ["plaintext", "isolate-override"],
      browsers := ["chrome 16..47", "firefox 10..49", "opera 15..34", "safari 6..10.1"],
      props := some ["unicode-bidi"] },
    { feature := "css-overscroll-behavior",
      names := ["overscroll-behavior"],
      browsers := ["edge 12..18", "ie 10..11"] },
    { feature := "css-color-adjust",
      names := ["print-color-adjust", "color-adjust"],
      browsers := ["and_chr 131", "and_uc 15.5", "android 4.4..131", "chrome 17..131", "edge 79..131",
        "firefox 48..96", "ios_saf 6..15.2", "opera 15..114", "safari 6..15.3", "samsung 4..27"] },
    { feature := "css-initial-letter",
      names := ["initial-letter"],
      browsers := ["ios_saf 9..17.6", "safari 9..17.6"] }]

/-- The table known without a document, for some agents. -/
def bundled (agents : AgentTable) : Except CapabilityError CapabilityTable :=
  ofEntries agents bundledFeatureQueries bundledEntries

end VendorCss.CapabilityTable
