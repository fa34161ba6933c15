namespace EcmaPattern.Property

/-! # Names of properties -/

/-- Short names of properties, each with the canonical name. -/
def aliases : List (String × String) :=
  [("AHex", "ASCII_Hex_Digit"), ("Alpha", "Alphabetic"), ("Bidi_C", "Bidi_Control"),
   ("Bidi_M", "Bidi_Mirrored"), ("CI", "Case_Ignorable"), ("CWCF", "Changes_When_Casefolded"),
   ("CWCM", "Changes_When_Casemapped"), ("CWKCF", "Changes_When_NFKC_Casefolded"),
   ("CWL", "Changes_When_Lowercased"), ("CWT", "Changes_When_Titlecased"),
   ("CWU", "Changes_When_Uppercased"), ("DI", "Default_Ignorable_Code_Point"),
   ("Dep", "Deprecated"), ("Dia", "Diacritic"), ("EBase", "Emoji_Modifier_Base"),
   ("EComp", "Emoji_Component"), ("EMod", "Emoji_Modifier"), ("EPres", "Emoji_Presentation"),
   ("Ext", "Extender"), ("ExtPict", "Extended_Pictographic"), ("Gr_Base", "Grapheme_Base"),
   ("Gr_Ext", "Grapheme_Extend"), ("Hex", "Hex_Digit"), ("IDC", "ID_Continue"),
   ("IDS", "ID_Start"), ("IDSB", "IDS_Binary_Operator"), ("IDST", "IDS_Trinary_Operator"),
   ("Ideo", "Ideographic"), ("Join_C", "Join_Control"), ("LOE", "Logical_Order_Exception"),
   ("Lower", "Lowercase"), ("NChar", "Noncharacter_Code_Point"), ("Pat_Syn", "Pattern_Syntax"),
   ("Pat_WS", "Pattern_White_Space"), ("QMark", "Quotation_Mark"), ("RI", "Regional_Indicator"),
   ("SD", "Soft_Dotted"), ("STerm", "Sentence_Terminal"), ("Term", "Terminal_Punctuation"),
   ("UIdeo", "Unified_Ideograph"), ("Upper", "Uppercase"), ("VS", "Variation_Selector"),
   ("XIDC", "XID_Continue"), ("XIDS", "XID_Start"), ("gc", "General_Category"), ("sc", "Script"),
   ("scx", "Script_Extensions"), ("space", "White_Space")]

/-- Canonical names of the binary properties. -/
def binary : List String :=
  ["ASCII", "ASCII_Hex_Digit", "Alphabetic", "Any", "Assigned", "Bidi_Control", "Bidi_Mirrored",
   "Case_Ignorable", "Cased", "Changes_When_Casefolded", "Changes_When_Casemapped",
   "Changes_When_Lowercased", "Changes_When_NFKC_Casefolded", "Changes_When_Titlecased",
   "Changes_When_Uppercased", "Dash", "Default_Ignorable_Code_Point", "Deprecated", "Diacritic",
   "Emoji", "Emoji_Component", "Emoji_Modifier", "Emoji_Modifier_Base", "Emoji_Presentation",
   "Extended_Pictographic", "Extender", "Grapheme_Base", "Grapheme_Extend", "Hex_Digit",
   "IDS_Binary_Operator", "IDS_Trinary_Operator", "ID_Continue", "ID_Start", "Ideographic",
   "Join_Control", "Logical_Order_Exception", "Lowercase", "Math", "Noncharacter_Code_Point",
   "Pattern_Syntax", "Pattern_White_Space", "Quotation_Mark", "Radical", "Regional_Indicator",
   "Sentence_Terminal", "Soft_Dotted", "Terminal_Punctuation", "Unified_Ideograph", "Uppercase",
   "Variation_Selector", "White_Space", "XID_Continue", "XID_Start"]

end EcmaPattern.Property
