import JobSystem.Lib.Text
import JobSystem.Lib.Dict

/-!
# Python's `json`

`json.loads` and `json.dumps` with their default settings, as the C scanner and encoder of CPython
3.11 do them. A float is known by the text that `dumps` gives it; reading a float literal goes
through a `FloatText`. The limits on nesting and on the digits of an integer are off, and a `str` has
no lone surrogates, so a text with the escape of one is not read; a program that is given any text
takes its `json.loads` as a parameter.

* `Json`, `Json.pyStr`, `Json.depth`, `Json.names`;
* `dumps`: escapes to ASCII, separators `", "` and `": "`;
* `loads`: `scanOnce` with the fuel that the text provides, `scanSeq` for items between brackets,
  `scanString`, `scanAtom`;
* `Canonical`: the objects that `dumps` and `loads` pass on unchanged.
-/

namespace PyJson

open PyText

/-- What `json.loads` returns; a float keeps its text. -/
inductive Json where
  | null
  | bool (b : Bool)
  | int (n : ℤ)
  | float (lit : Str)
  | str (s : Str)
  | arr (xs : List Json)
  | obj (fields : List (Str × Json))

namespace Json

/-- `str(value)`; `repr` is the text of a float or a container. -/
def pyStr (repr : Json → Str) : Json → Str
  | .null => "None".toList
  | .bool true => "True".toList
  | .bool false => "False".toList
  | .int n => intStr n
  | .str s => s
  | v => repr v

/-- `bool(value)`, with `repr` of the floats that are zero. -/
def truthy : Json → Bool
  | .null => false
  | .bool b => b
  | .int n => n ≠ 0
  | .float lit => lit ≠ "0.0".toList && lit ≠ "-0.0".toList
  | .str s => s ≠ []
  | .arr xs => !xs.isEmpty
  | .obj fields => !fields.isEmpty

/-- A value that is not `None`. -/
def notNone : Json → Option Json
  | .null => none
  | v => some v

/-- `value.get(key)` of a dictionary. -/
def get? (fields : List (Str × Json)) (key : Str) : Option Json := fields.lookup key

/-- The names of an object. -/
def names : Json → List Str
  | .obj fields => fields.map Prod.fst
  | _ => []

mutual

/-- How deep the brackets of a value are nested. -/
def depth : Json → ℕ
  | .arr xs => depthItems xs + 1
  | .obj fields => depthFields fields + 1
  | _ => 0

/-- The largest depth of the items. -/
def depthItems : List Json → ℕ
  | [] => 0
  | x :: xs => max x.depth (depthItems xs)

/-- The largest depth of the fields. -/
def depthFields : List (Str × Json) → ℕ
  | [] => 0
  | (_, v) :: fields => max v.depth (depthFields fields)

end

end Json

/-! ## Writing -/

/-- The letter after a backslash, and what it stands for. -/
def shortEscapes : List (Char × Char) :=
  [('"', '"'), ('\\', '\\'), ('n', '\n'), ('r', '\r'), ('t', '\t'), ('f', '\x0c'), ('b', '\x08')]

/-- The UTF-16 code units of a character. -/
def codeUnits (c : Char) : List ℕ :=
  if c.toNat < 0x10000 then [c.toNat]
  else [0xd800 + (c.toNat - 0x10000) / 0x400, 0xdc00 + (c.toNat - 0x10000) % 0x400]

/-- `\uXXXX`. -/
def hexEscape (n : ℕ) : Str :=
  ['\\', 'u', Nat.digitChar (n / 4096), Nat.digitChar (n / 256 % 16), Nat.digitChar (n / 16 % 16),
    Nat.digitChar (n % 16)]

/-- A character of a string, in ASCII. -/
def escapeChar (c : Char) : Str :=
  match shortEscapes.find? fun e => e.2 = c with
  | some e => ['\\', e.1]
  | none => if 0x20 ≤ c.toNat ∧ c.toNat ≤ 0x7e then [c] else (codeUnits c).flatMap hexEscape

/-- A string in quotes. -/
def dumpsStr (s : Str) : Str := '"' :: (s.flatMap escapeChar ++ ['"'])

/-- Texts with `", "` between them. -/
def commaJoin : List Str → Str
  | [] => []
  | [t] => t
  | t :: t' :: ts => t ++ (',' :: ' ' :: commaJoin (t' :: ts))

mutual

/-- `json.dumps(value)`. -/
def dumps : Json → Str
  | .null => ['n', 'u', 'l', 'l']
  | .bool true => ['t', 'r', 'u', 'e']
  | .bool false => ['f', 'a', 'l', 's', 'e']
  | .int n => intStr n
  | .float lit => lit
  | .str s => dumpsStr s
  | .arr xs => '[' :: (commaJoin (dumpsItems xs) ++ [']'])
  | .obj fields => '{' :: (commaJoin (dumpsFields fields) ++ ['}'])

/-- The texts of the items. -/
def dumpsItems : List Json → List Str
  | [] => []
  | x :: xs => dumps x :: dumpsItems xs

/-- The texts of the fields. -/
def dumpsFields : List (Str × Json) → List Str
  | [] => []
  | (k, v) :: fields => (dumpsStr k ++ (':' :: ' ' :: dumps v)) :: dumpsFields fields

end

/-! ## Reading strings -/

/-- `[ \t\n\r]`. -/
def isWs (c : Char) : Bool := c = ' ' ∨ c = '\t' ∨ c = '\n' ∨ c = '\r'

/-- What follows the white space. -/
def skipWs (s : Str) : Str := s.dropWhile isWs

/-- The value of a hexadecimal digit. -/
def hexValue (c : Char) : Option ℕ :=
  if 48 ≤ c.toNat ∧ c.toNat ≤ 57 then some (c.toNat - 48)
  else if 97 ≤ c.toNat ∧ c.toNat ≤ 102 then some (c.toNat - 87)
  else if 65 ≤ c.toNat ∧ c.toNat ≤ 70 then some (c.toNat - 55)
  else none

/-- Four hexadecimal digits. -/
def readHex : ℕ → Str → ℕ → Option (ℕ × Str)
  | 0, s, u => some (u, s)
  | n + 1, c :: cs, u => (hexValue c).bind fun h => readHex n cs (16 * u + h)
  | _ + 1, [], _ => none

/-- What the letter after a backslash stands for. -/
def unescape (c : Char) : Option Char := (shortEscapes ++ [('/', '/')]).lookup c

/-- A code unit of a string, or its end. -/
def readUnit : Str → Option (Option ℕ × Str)
  | [] => none
  | c :: cs =>
    if c = '"' then some (none, cs)
    else if c = '\\' then
      match cs with
      | [] => none
      | e :: cs =>
        if e = 'u' then (readHex 4 cs 0).map fun p => (some p.1, p.2)
        else (unescape e).map fun c => (some c.toNat, cs)
    else if c.toNat < 0x20 then none
    else some (some c.toNat, cs)

/-- The code units up to the closing quote. -/
def readUnits : ℕ → Str → Option (List ℕ × Str)
  | 0, _ => none
  | n + 1, s =>
    (readUnit s).bind fun p =>
      match p.1 with
      | none => some ([], p.2)
      | some u => (readUnits n p.2).map fun q => (u :: q.1, q.2)

/-- The text of a list of code units; there is no character for a lone surrogate. -/
def joinUnits : List ℕ → Option Str
  | [] => some []
  | [u] => if 0xd800 ≤ u ∧ u < 0xe000 then none else some [Char.ofNat u]
  | u :: u' :: us =>
    if 0xd800 ≤ u ∧ u < 0xdc00 ∧ 0xdc00 ≤ u' ∧ u' < 0xe000 then
      (joinUnits us).map fun s => Char.ofNat (0x10000 + (u - 0xd800) * 0x400 + (u' - 0xdc00)) :: s
    else if 0xd800 ≤ u ∧ u < 0xe000 then none
    else (joinUnits (u' :: us)).map fun s => Char.ofNat u :: s

/-- A string after its opening quote. -/
def scanString (s : Str) : Option (Str × Str) :=
  (readUnits s.length s).bind fun p => (joinUnits p.1).map fun t => (t, p.2)

/-! ## Reading numbers -/

/-- A leading minus sign. -/
def signPart : Str → Str × Str
  | [] => ([], [])
  | c :: cs => if c = '-' then ([c], cs) else ([], c :: cs)

/-- `0|[1-9]\d*`. -/
def intPart : Str → Option (Str × Str)
  | [] => none
  | c :: cs =>
    if c = '0' then some ([c], cs)
    else if c.isDigit then some (c :: cs.takeWhile Char.isDigit, cs.dropWhile Char.isDigit)
    else none

/-- `(\.\d+)?`. -/
def fracPart : Str → Str × Str
  | [] => ([], [])
  | c :: cs =>
    if c = '.' ∧ cs.takeWhile Char.isDigit ≠ [] then
      (c :: cs.takeWhile Char.isDigit, cs.dropWhile Char.isDigit)
    else ([], c :: cs)

/-- The sign of an exponent. -/
def expSign : Str → Str × Str
  | [] => ([], [])
  | c :: cs => if c = '+' ∨ c = '-' then ([c], cs) else ([], c :: cs)

/-- `([eE][-+]?\d+)?`. -/
def expPart : Str → Str × Str
  | [] => ([], [])
  | c :: cs =>
    if (c = 'e' ∨ c = 'E') ∧ (expSign cs).2.takeWhile Char.isDigit ≠ [] then
      (c :: ((expSign cs).1 ++ (expSign cs).2.takeWhile Char.isDigit),
        (expSign cs).2.dropWhile Char.isDigit)
    else ([], c :: cs)

/-- The parts of a number at the front of a text: the sign and the integer, the rest of a float. -/
def numberParts (s : Str) : Option ((Str × Str × Str) × Str) :=
  (intPart (signPart s).2).map fun p =>
    (((signPart s).1, p.1, (fracPart p.2).1 ++ (expPart (fracPart p.2).2).1),
      (expPart (fracPart p.2).2).2)

/-- The literals of a float. -/
def IsFloatLit (lit : Str) : Prop :=
  ∃ sign int frac, numberParts lit = some ((sign, int, frac), []) ∧ frac ≠ []

/-- The texts of the floats that are no numbers. -/
def floatConstants : List Str :=
  [['N', 'a', 'N'], ['I', 'n', 'f', 'i', 'n', 'i', 't', 'y'],
    ['-', 'I', 'n', 'f', 'i', 'n', 'i', 't', 'y']]

/-- `float.__repr__(float(lit))`, with the constants of `json.dumps`: the text of a float is the
text of the float that it denotes. -/
structure FloatText where
  text : Str → Str
  text_spec : ∀ lit, IsFloatLit lit →
    text lit ∈ floatConstants ∨ IsFloatLit (text lit) ∧ text (text lit) = text lit

/-- Floats that are only written the way they are read. -/
def FloatText.verbatim : FloatText := ⟨id, fun _ h => .inr ⟨h, rfl⟩⟩

/-- A number. -/
def scanNumber (ft : FloatText) (s : Str) : Option (Json × Str) :=
  (numberParts s).map fun p =>
    let n : ℕ := Nat.ofDigitChars 10 p.1.2.1 0
    (if p.1.2.2 = [] then .int (if p.1.1 = [] then n else -n)
      else .float (ft.text (p.1.1 ++ (p.1.2.1 ++ p.1.2.2))), p.2)

/-- The words that stand for a value. -/
def constants : List (Str × Json) :=
  [(['n', 'u', 'l', 'l'], .null), (['t', 'r', 'u', 'e'], .bool true),
    (['f', 'a', 'l', 's', 'e'], .bool false)] ++ floatConstants.map fun t => (t, .float t)

/-- A value without brackets and quotes. -/
def scanAtom (ft : FloatText) (s : Str) : Option (Json × Str) :=
  match constants.find? fun e => e.1.isPrefixOf s with
  | some e => some (e.2, s.drop e.1.length)
  | none => scanNumber ft s

/-! ## Reading containers -/

/-- At least one item, with commas between them, up to a closing bracket. -/
def scanSeq {α : Type} (close : Char) (item : Str → Option (α × Str)) :
    ℕ → Str → Option (List α × Str)
  | 0, _ => none
  | n + 1, s =>
    (item s).bind fun p =>
      match skipWs p.2 with
      | [] => none
      | c :: cs =>
        if c = close then some ([p.1], cs)
        else if c = ',' then (scanSeq close item n (skipWs cs)).map fun q => (p.1 :: q.1, q.2)
        else none

/-- A field of an object. -/
def scanField (value : Str → Option (Json × Str)) : Str → Option ((Str × Json) × Str)
  | [] => none
  | c :: cs =>
    if c = '"' then
      (scanString cs).bind fun k =>
        match skipWs k.2 with
        | [] => none
        | c :: cs => if c = ':' then (value (skipWs cs)).map fun v => ((k.1, v.1), v.2) else none
    else none

/-- `dict(pairs)`: a repeated name keeps its first place and its last value. -/
def ofPairs (pairs : List (Str × Json)) : PyDict Str Json :=
  pairs.foldl (fun d p => d.set p.1 p.2) ∅

/-- `scan_once`. -/
def scanOnce (ft : FloatText) : ℕ → Str → Option (Json × Str)
  | _, [] => none
  | 0, _ :: _ => none
  | n + 1, c :: cs =>
    if c = '"' then (scanString cs).map fun p => (.str p.1, p.2)
    else if c = '{' then
      if (skipWs cs).head? = some '}' then some (.obj [], (skipWs cs).tail)
      else (scanSeq '}' (scanField (scanOnce ft n)) cs.length (skipWs cs)).map fun p =>
        (.obj (ofPairs p.1).entries, p.2)
    else if c = '[' then
      if (skipWs cs).head? = some ']' then some (.arr [], (skipWs cs).tail)
      else (scanSeq ']' (scanOnce ft n) cs.length (skipWs cs)).map fun p => (.arr p.1, p.2)
    else scanAtom ft (c :: cs)

/-- `json.loads(s)` without limits, for texts without lone surrogates; `none` is the
`JSONDecodeError`. -/
def loads (ft : FloatText) (s : Str) : Option Json :=
  (scanOnce ft s.length (skipWs s)).bind fun p => if skipWs p.2 = [] then some p.1 else none

/-! ## Canonical values -/

/-- The texts that `dumps` gives to floats. -/
def IsFloatText (ft : FloatText) (lit : Str) : Prop :=
  lit ∈ floatConstants ∨ IsFloatLit lit ∧ ft.text lit = lit

/-- Objects repeat no name, and floats have the text that `dumps` gives them. -/
inductive Canonical (ft : FloatText) : Json → Prop where
  | null : Canonical ft .null
  | bool (b : Bool) : Canonical ft (.bool b)
  | int (n : ℤ) : Canonical ft (.int n)
  | float {lit : Str} (h : IsFloatText ft lit) : Canonical ft (.float lit)
  | str (s : Str) : Canonical ft (.str s)
  | arr {xs : List Json} (h : ∀ x ∈ xs, Canonical ft x) : Canonical ft (.arr xs)
  | obj {fields : List (Str × Json)} (hnodup : (fields.map Prod.fst).Nodup)
    (h : ∀ f ∈ fields, Canonical ft f.2) : Canonical ft (.obj fields)

end PyJson
