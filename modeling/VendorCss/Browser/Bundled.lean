import VendorCss.Browser.Agent

/-!
# The bundled agents

The browsers that the library knows without a document, with ranges as a document writes them.
-/

namespace VendorCss.AgentTable

/-- The browsers known without a document, in the order of their names. -/
def bundledEntries : List AgentEntry :=
  [ { name := "and_chr", browser := "Chrome for Android", vendor := "-webkit-",
      versions := Text.words "131" },
    { name := "and_ff", browser := "Firefox for Android", vendor := "-moz-",
      versions := Text.words "132" },
    { name := "and_qq", browser := "QQ Browser", vendor := "-webkit-",
      versions := Text.words "14.9" },
    { name := "and_uc", browser := "UC Browser for Android", vendor := "-webkit-",
      versions := Text.words "15.5" },
    { name := "android", browser := "Android Browser", vendor := "-webkit-",
      versions := Text.words "2.1 2.2 2.3 3 4 4.1 4.2-4.3 4.4 4.4.3-4.4.4 131" },
    { name := "baidu", browser := "Baidu Browser", vendor := "-webkit-",
      versions := Text.words "13.52" },
    { name := "bb", browser := "Blackberry Browser", vendor := "-webkit-",
      versions := Text.words "7 10" },
    { name := "chrome", browser := "Chrome", vendor := "-webkit-",
      versions := Text.words "4..131" },
    { name := "edge", browser := "Edge", vendor := "-webkit-",
      exceptions := [("12..18", "-ms-")],
      versions := Text.words "12..18 79..131" },
    { name := "firefox", browser := "Firefox", vendor := "-moz-",
      versions := Text.words "2 3 3.5 3.6 4..133" },
    { name := "ie", browser := "IE", vendor := "-ms-",
      versions := Text.words "5.5 6..11" },
    { name := "ie_mob", browser := "IE Mobile", vendor := "-ms-",
      versions := Text.words "10 11" },
    { name := "ios_saf", browser := "iOS Safari", vendor := "-webkit-",
      versions := Text.words "3.2 4.0-4.1 4.2-4.3 5.0-5.1 6.0-6.1 7.0-7.1 8 8.1-8.4 9.0-9.2 9.3 10.0-10.2 10.3" ++
        Text.words "11.0-11.2 11.3-11.4 12.0-12.1 12.2-12.5 13.0-13.1 13.2 13.3 13.4-13.7 14.0-14.4" ++
        Text.words "14.5-14.8 15.0-15.1 15.2-15.3 15.4 15.5 15.6-15.8 16.0 16.1 16.2 16.3 16.4 16.5" ++
        Text.words "16.6-16.7 17.0 17.1 17.2 17.3 17.4 17.5 17.6 18.0 18.1" },
    { name := "kaios", browser := "KaiOS Browser", vendor := "-moz-",
      versions := Text.words "2.5 3.0-3.1" },
    { name := "op_mini", browser := "Opera Mini", vendor := "-o-",
      versions := Text.words "all" },
    { name := "op_mob", browser := "Opera Mobile", vendor := "-webkit-",
      exceptions := [("10", "-o-"), ("11", "-o-"), ("11.1", "-o-"), ("11.5", "-o-"), ("12", "-o-"), ("12.1", "-o-")],
      versions := Text.words "10 11 11.1 11.5 12 12.1 80" },
    { name := "opera", browser := "Opera", vendor := "-webkit-",
      exceptions := [("10.0-10.1", "-o-"), ("10.5", "-o-"), ("10.6", "-o-"), ("11", "-o-"), ("11.1", "-o-"),
        ("11.5", "-o-"), ("11.6", "-o-"), ("12", "-o-"), ("12.1", "-o-"), ("9", "-o-"), ("9.5-9.6", "-o-")],
      versions := Text.words "9 9.5-9.6 10.0-10.1 10.5 10.6 11 11.1 11.5 11.6 12 12.1 15..114" },
    { name := "safari", browser := "Safari", vendor := "-webkit-",
      versions := Text.words "3.1 3.2 4 5 5.1 6 6.1 7 7.1 8 9 9.1 10 10.1 11 11.1 12 12.1 13 13.1 14 14.1 15" ++
        Text.words "15.1 15.2-15.3 15.4 15.5 15.6 16.0 16.1 16.2 16.3 16.4 16.5 16.6 17.0 17.1 17.2" ++
        Text.words "17.3 17.4 17.5 17.6 18.0 18.1" },
    { name := "samsung", browser := "Samsung Internet", vendor := "-webkit-",
      versions := Text.words "4 5.0-5.4 6.2-6.4 7.2-7.4 8.2 9.2 10.1 11.1-11.2 12.0 13.0 14.0 15.0 16.0 17.0" ++
        Text.words "18.0 19.0 20 21 22 23 24 25 26 27" }]

/-- The table of the browsers known without a document. -/
def bundled : Except BrowserError AgentTable := ofEntries bundledEntries

end VendorCss.AgentTable
