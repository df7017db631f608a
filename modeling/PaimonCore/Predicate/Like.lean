import Mathlib.Data.List.Infix

/-!
# String matching of the leaf functions

`StartsWith`, `EndsWith` and `Contains` look at bytes. `Like::MatchString` parses the
pattern into code points and wildcards and fills one row of a table per code point of the
field.
-/

namespace PaimonCore.Predicates

abbrev Bytes := List (Fin 256)

def startsWith (field pattern : Bytes) : Bool := pattern.isPrefixOf field

def endsWith (field pattern : Bytes) : Bool := pattern.isSuffixOf field

/-- `field.find(pattern) != npos`. -/
def contains (field pattern : Bytes) : Bool := field.tails.any (pattern.isPrefixOf ·)

namespace Like

def utf8CodePointLength (leadingByte : Fin 256) : Nat :=
  if leadingByte.val < 0x80 then 1
  else if leadingByte.val &&& 0xE0 = 0xC0 then 2
  else if leadingByte.val &&& 0xF0 = 0xE0 then 3
  else if leadingByte.val &&& 0xF8 = 0xF0 then 4
  else 1

/-- The length of the code point at the front; a truncated sequence counts as one byte. -/
def codePointLength (leadingByte : Fin 256) (bytes : Bytes) : Nat :=
  if bytes.length < utf8CodePointLength leadingByte then 1 else utf8CodePointLength leadingByte

def isJavaRegexLineTerminator (codePoint : Bytes) : Bool :=
  codePoint = [0x0A] || codePoint = [0x0D] || codePoint = [0xC2, 0x85] ||
    codePoint = [0xE2, 0x80, 0xA8] || codePoint = [0xE2, 0x80, 0xA9]

inductive PatternElement where
  | anySequence
  | anyOne
  | literal (codePoint : Bytes)
  deriving DecidableEq, Repr

def invalidEscape (index : Nat) : String :=
  "Invalid escape sequence, index=" ++ toString index

/-- The pattern from `index` on; the fuel is its length. -/
def parseFrom : Nat → Nat → Bytes → Except String (List PatternElement)
  | 0, _, _ => .ok []
  | _ + 1, _, [] => .ok []
  | fuel + 1, index, byte :: rest =>
    if byte = 0x5C then
      match rest with
      | [] => .error (invalidEscape index)
      | next :: rest =>
        if next ≠ 0x5F ∧ next ≠ 0x25 ∧ next ≠ 0x5C then .error (invalidEscape index)
        else return .literal [next] :: (← parseFrom fuel (index + 2) rest)
    else if byte = 0x5F then
      return .anyOne :: (← parseFrom fuel (index + 1) rest)
    else if byte = 0x25 then
      return .anySequence :: (← parseFrom fuel (index + 1) rest)
    else
      let length := codePointLength byte (byte :: rest)
      return .literal ((byte :: rest).take length) ::
        (← parseFrom fuel (index + length) ((byte :: rest).drop length))

/-- Consecutive `%` become one. -/
def simplify (elements : List PatternElement) : List PatternElement :=
  elements.foldl (fun simplified element =>
    if element = .anySequence ∧ simplified.getLast? = some .anySequence then simplified
    else simplified ++ [element]) []

def codePointsFrom : Nat → Bytes → List Bytes
  | 0, _ => []
  | _ + 1, [] => []
  | fuel + 1, byte :: rest =>
    let length := codePointLength byte (byte :: rest)
    (byte :: rest).take length :: codePointsFrom fuel ((byte :: rest).drop length)

def codePoints (field : Bytes) : List Bytes := codePointsFrom field.length field

/-- The inner loop: `previous` is the old entry to the left, `left` the new one. -/
def advance (fieldChar : Bytes) : Bool → Bool → List PatternElement → List Bool → List Bool
  | previous, left, element :: elements, old :: olds =>
    let entry :=
      match element with
      | .anySequence => left || old
      | .anyOne => previous && !isJavaRegexLineTerminator fieldChar
      | .literal codePoint => if codePoint = fieldChar then previous else false
    entry :: advance fieldChar old entry elements olds
  | _, _, _, _ => []

def matchFrom (elements : List PatternElement) : Bool → List Bool → List Bytes → Bool
  | first, entries, [] => (first :: entries).getLast?.getD false
  | first, entries, fieldChar :: fieldChars =>
    let entries := advance fieldChar first false elements entries
    if entries.any id then matchFrom elements false entries fieldChars else false

/-- The entries that the leading `%` set before the first code point. -/
def initialEntries (elements : List PatternElement) : List Bool :=
  (elements.takeWhile (· = .anySequence)).map (fun _ => true) ++
    (elements.dropWhile (· = .anySequence)).map (fun _ => false)

def matchString (field pattern : Bytes) : Except String Bool :=
  if pattern.isEmpty then .ok field.isEmpty
  else do
    let elements := simplify (← parseFrom pattern.length 0 pattern)
    let fieldChars := codePoints field
    if fieldChars.isEmpty then return elements = [.anySequence]
    else if fieldChars.length < (elements.filter (· ≠ .anySequence)).length then return false
    else return matchFrom elements true (initialEntries elements) fieldChars

end Like

end PaimonCore.Predicates
