import SchemaAlgebra.Regex.CharSet
import SchemaAlgebra.Text.PropertyTable

/-!
# Properties of characters by their names

A name by itself is that of a yes-or-no property, of a general category or of a script,
looked up in this order. The last two may also be given as the value of a property.
-/
namespace SchemaAlgebra.Regex.CharSet

/-- What counts in a name: its ASCII characters without blanks, hyphens and underscores, in
lower case and without a leading `is`. -/
def nameKey (name : List Char) : List Char :=
  match name with
  | a :: b :: r =>
    if a.toLower = 'i' && b.toLower = 's' then
      let key := plain r
      if key = ['c'] then ['i', 's', 'c'] else key
    else plain name
  | r => plain r
where
  plain (cs : List Char) : List Char :=
    (cs.filter fun c => c.toNat < 0x80 && c != ' ' && c != '_' && c != '-').map Char.toLower

def hasKey (key : List Char) (name : String) : Bool := nameKey name.toList == key

def lowercase : CharSet := union (categories ["Ll"]) (ranges Text.otherLowercaseRanges)

def uppercase : CharSet := union (categories ["Lu"]) (ranges Text.otherUppercaseRanges)

def cased : CharSet := ofList [lowercase, uppercase, categories ["Lt"]]

/-- Letters, and numbers written as letters. -/
def letterLike : CharSet := categories ["Lu", "Ll", "Lt", "Lm", "Lo", "Nl"]

def alphabetic : CharSet :=
  ofList [letterLike, lowercase, uppercase, ranges Text.otherAlphabeticRanges]

def graphemeExtend : CharSet :=
  union (categories ["Mn", "Me"]) (ranges Text.otherGraphemeExtendRanges)

def graphemeBase : CharSet :=
  complement (union (categories ["Cc", "Cf", "Cs", "Co", "Cn", "Zl", "Zp"]) graphemeExtend)

def identifierStart : CharSet :=
  difference
    (union letterLike (ranges
      [(0x1885, 0x1886), (0x2118, 0x2118), (0x212E, 0x212E), (0x309B, 0x309C)]))
    (ranges [(0x2E2F, 0x2E2F)])

def identifierContinue : CharSet :=
  ofList [identifierStart, categories ["Mn", "Mc", "Nd", "Pc"],
    ranges [(0xB7, 0xB7), (0x387, 0x387), (0x1369, 0x1371), (0x19DA, 0x19DA), (0x200C, 0x200D),
      (0x30FB, 0x30FB), (0xFF65, 0xFF65)]]

def asciiHexDigit : CharSet := ofList [asciiDigit, range 'a' 'f', range 'A' 'F']

/-- The properties that a character has or has not, under their names. -/
def yesOrNo : List (List String × CharSet) :=
  [(["Alphabetic", "Alpha"], alphabetic),
   (["ASCII_Hex_Digit", "AHex"], asciiHexDigit),
   (["Bidi_Control", "Bidi_C"], ranges Text.bidiControlRanges),
   (["Bidi_Mirrored", "Bidi_M"], ranges Text.bidiMirroredRanges),
   (["Case_Ignorable", "CI"], ranges Text.caseIgnorableRanges),
   (["Cased"], cased),
   (["Changes_When_Casefolded", "CWCF"],
    union (difference lowered (ranges [(0x13A0, 0x13F5)])) (ranges Text.foldedOnlyRanges)),
   (["Changes_When_Casemapped", "CWCM"], union lowered uppered),
   (["Changes_When_Lowercased", "CWL"], lowered),
   (["Changes_When_Titlecased", "CWT"],
    union (difference uppered (ranges Text.uppercaseOnlyRanges)) (ranges Text.titlecaseOnlyRanges)),
   (["Changes_When_Uppercased", "CWU"], uppered),
   (["Dash"], union (categories ["Pd"]) (ranges Text.otherDashRanges)),
   (["Default_Ignorable_Code_Point", "DI"], ranges Text.defaultIgnorableRanges),
   (["Deprecated", "Dep"], ranges Text.deprecatedRanges),
   (["Diacritic", "Dia"], ranges Text.diacriticRanges),
   (["Emoji"], ranges Text.emojiRanges),
   (["Emoji_Component", "EComp"], ranges Text.emojiComponentRanges),
   (["Emoji_Modifier", "EMod"], ranges [(0x1F3FB, 0x1F3FF)]),
   (["Emoji_Modifier_Base", "EBase"], ranges Text.emojiModifierBaseRanges),
   (["Emoji_Presentation", "EPres"], ranges Text.emojiPresentationRanges),
   (["Extended_Pictographic", "ExtPict"], ranges Text.extendedPictographicRanges),
   (["Extender", "Ext"], ranges Text.extenderRanges),
   (["Grapheme_Base", "Gr_Base"], graphemeBase),
   (["Grapheme_Extend", "Gr_Ext"], graphemeExtend),
   (["Hex_Digit", "Hex"],
    union asciiHexDigit (ranges [(0xFF10, 0xFF19), (0xFF21, 0xFF26), (0xFF41, 0xFF46)])),
   (["IDS_Binary_Operator", "IDSB"], ranges [(0x2FF0, 0x2FF1), (0x2FF4, 0x2FFD), (0x31EF, 0x31EF)]),
   (["IDS_Trinary_Operator", "IDST"], ranges [(0x2FF2, 0x2FF3)]),
   (["ID_Continue", "IDC"], identifierContinue),
   (["ID_Start", "IDS"], identifierStart),
   (["Ideographic", "Ideo"],
    union (ranges Text.unifiedIdeographRanges) (ranges Text.otherIdeographRanges)),
   (["Join_Control", "Join_C"], ranges [(0x200C, 0x200D)]),
   (["Logical_Order_Exception", "LOE"], ranges Text.logicalOrderExceptionRanges),
   (["Lowercase", "Lower"], lowercase),
   (["Math"], union (categories ["Sm"]) (ranges Text.otherMathRanges)),
   (["Noncharacter_Code_Point", "NChar"], ranges Text.noncharacterRanges),
   (["Pattern_Syntax", "Pat_Syn"], ranges Text.patternMarkRanges),
   (["Pattern_White_Space", "Pat_WS"], ranges Text.patternBlankRanges),
   (["Quotation_Mark", "QMark"], ranges Text.quotationMarkRanges),
   (["Radical"], ranges Text.radicalRanges),
   (["Regional_Indicator", "RI"], ranges [(0x1F1E6, 0x1F1FF)]),
   (["Sentence_Terminal", "STerm"], ranges Text.sentenceTerminalRanges),
   (["Soft_Dotted", "SD"], ranges Text.softDottedRanges),
   (["Terminal_Punctuation", "Term"], ranges Text.terminalPunctuationRanges),
   (["Unified_Ideograph", "UIdeo"], ranges Text.unifiedIdeographRanges),
   (["Uppercase", "Upper"], uppercase),
   (["Variation_Selector", "VS"], ranges Text.variationSelectorRanges),
   (["White_Space", "WSpace", "space"], blank),
   (["XID_Continue", "XIDC"],
    difference identifierContinue (ranges Text.notExtendedContinueRanges)),
   (["XID_Start", "XIDS"], difference identifierStart (ranges Text.notExtendedStartRanges))]

def ofYesOrNo? (key : List Char) : Option CharSet :=
  (yesOrNo.find? fun (names, _) => names.any (hasKey key)).map (·.2)

def ofCategory? (key : List Char) : Option CharSet :=
  if key = "any".toList then some all
  else if key = "assigned".toList then some (complement (categories ["Cn"]))
  else if key = "ascii".toList then some (range '\x00' '\x7f')
  else (Text.categoryNames.find? fun (names, _) => names.any (hasKey key)).map fun (_, codes) =>
    categories codes

/-- The code of a script, given as such or by the name of the script. -/
def scriptCode? (key : List Char) : Option String :=
  (Text.scriptNames.find? fun (code, name) => hasKey key code || hasKey key name).map (·.1)

/-- Three names of categories are also short names of properties, and stand for the category. -/
def isCategoryFirst (key : List Char) : Bool :=
  key == ['c', 'f'] || key == ['s', 'c'] || key == ['l', 'c']

/-- The characters with the property of this name. -/
def ofProperty? (name : List Char) : Option CharSet :=
  let key := nameKey name
  let first := if isCategoryFirst key then none else ofYesOrNo? key
  first <|> ofCategory? key <|> (scriptCode? key).map script

/-- The characters for which a property has the value of this name. -/
def ofValue? (name value : List Char) : Option CharSet :=
  let property := nameKey name
  let key := nameKey value
  if ["gc", "General_Category", "Category"].any (hasKey property) then ofCategory? key
  else if ["sc", "Script"].any (hasKey property) then (scriptCode? key).map script
  else if ["scx", "Script_Extensions"].any (hasKey property) then
    (scriptCode? key).map sharedScript
  else none

/-- The text before the first occurrence of a mark, and the text behind it. -/
def splitAt? (mark : List Char) : List Char → Option (List Char × List Char)
  | [] => none
  | c :: r =>
    if mark.isPrefixOf (c :: r) then some ([], (c :: r).drop mark.length)
    else (splitAt? mark r).map fun (before, rest) => (c :: before, rest)

/-- The characters described between braces: by a name, or by a name and a value with `!=`,
`:` or `=` between them. -/
def ofBraces? (text : List Char) : Option CharSet :=
  match splitAt? ['!', '='] text <|> splitAt? [':'] text <|> splitAt? ['='] text with
  | some (name, value) => ofValue? name value
  | none => ofProperty? text

end SchemaAlgebra.Regex.CharSet
