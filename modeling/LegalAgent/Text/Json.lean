import LegalAgent.Text.Marker
import Mathlib.Data.List.Nodup

/-
  JSON values as the Python code sees them.

  An object is a `dict`: a list of its items in order.  A
  number is kept as the text that `str` prints.

  Key definitions include:
    * `Json`
    * `Json.get?`
    * `Json.text`
    * `Json.falsy`
    * `intText`
    * `int?`
    * `setItem`
-/

------------------------------------------------------------
-- Values
------------------------------------------------------------

namespace LegalAgent

/- A JSON value. -/
inductive Json where
  | null
  | bool (value : Bool)
  | num (text : Text)
  | str (text : Text)
  | arr (items : List Json)
  | obj (fields : List (Text × Json))

namespace Json

/- The value of a key of an object (`dict.get`). -/
def get? (key : Text) : Json → Option Json
| .obj fields => fields.lookup key
| _ => none

/- The text of a string. -/
def str? : Json → Option Text
| .str text => some text
| _ => none

/-
  What `str` prints.  How it prints a list or an object is
  left to `repr`.
-/
def text (repr : Json → Text) : Json → Text
| .null => "None".toList
| .bool true => "True".toList
| .bool false => "False".toList
| .num text => text
| .str text => text
| value => repr value

/-
  Whether `or` passes over a value.  These are the texts that
  `str` prints for the numbers that are zero.
-/
def falsy : Json → Bool
| .null | .bool false | .str [] | .arr [] | .obj [] => true
| .num text =>
    ["0".toList, "0.0".toList, "-0.0".toList].contains text
| _ => false

end Json

------------------------------------------------------------
-- Integers
------------------------------------------------------------

/- The decimal text of an integer (`str`). -/
def intText : Int → Text
| .ofNat n => Nat.toDigits 10 n
| .negSucc n => '-' :: Nat.toDigits 10 (n + 1)

/- It is made of digits and a sign. -/
theorem isDigit_of_mem_intText
    {n : Int}
    {c : Char}
    (hMem : c ∈ intText n) :
    c.isDigit = true ∨ c = '-' := by
  cases n with
  | ofNat n =>
      exact Or.inl
        (Nat.isDigit_of_mem_toDigits (by decide) (by decide)
          hMem)
  | negSucc n =>
      rcases List.mem_cons.mp hMem with hSign | hDigit
      · exact Or.inr hSign
      · exact Or.inl
          (Nat.isDigit_of_mem_toDigits (by decide) (by decide)
            hDigit)

/- The digit of value zero in each script that has digits. -/
def zeroDigits : List Nat :=
  [0x30, 0x660, 0x6F0, 0x7C0, 0x966, 0x9E6, 0xA66, 0xAE6,
    0xB66, 0xBE6, 0xC66, 0xCE6, 0xD66, 0xDE6, 0xE50, 0xED0,
    0xF20, 0x1040, 0x1090, 0x17E0, 0x1810, 0x1946, 0x19D0,
    0x1A80, 0x1A90, 0x1B50, 0x1BB0, 0x1C40, 0x1C50, 0xA620,
    0xA8D0, 0xA900, 0xA9D0, 0xA9F0, 0xAA50, 0xABF0, 0xFF10,
    0x104A0, 0x10D30, 0x11066, 0x110F0, 0x11136, 0x111D0,
    0x112F0, 0x11450, 0x114D0, 0x11650, 0x116C0, 0x11730,
    0x118E0, 0x11950, 0x11C50, 0x11D50, 0x11DA0, 0x11F50,
    0x16A60, 0x16AC0, 0x16B50, 0x1D7CE, 0x1D7D8, 0x1D7E2,
    0x1D7EC, 0x1D7F6, 0x1E140, 0x1E2F0, 0x1E4F0, 0x1E950,
    0x1FBF0]

/- The value of a decimal digit of any script. -/
def digitValue? (c : Char) : Option Nat :=
  zeroDigits.findSome? fun first =>
    if first ≤ c.toNat ∧ c.toNat < first + 10 then
      some (c.toNat - first)
    else
      none

/- The values of digits; underscores may stand between them. -/
def digits? : Text → Option (List Nat)
| [] => none
| [c] => (digitValue? c).map ([·])
| c :: '_' :: rest =>
    (digitValue? c).bind fun digit =>
      (digits? rest).map (digit :: ·)
| c :: next :: rest =>
    (digitValue? c).bind fun digit =>
      (digits? (next :: rest)).map (digit :: ·)

/- The number of digits that `int` reads at most. -/
def maxStrDigits : Nat := 4300

/- The number that digits write. -/
def natural? (text : Text) : Option Nat :=
  (digits? text).bind fun digits =>
    if maxStrDigits < digits.length then none
    else
      some
        (digits.foldl (fun number digit => 10 * number + digit)
          0)

/- The number that digits with a sign write. -/
def signed? : Text → Option Int
| '-' :: rest => (natural? rest).map fun number => -number
| '+' :: rest => (natural? rest).map fun number => number
| text => (natural? text).map fun number => number

/- The integer of a text (`int`); `none` is a `ValueError`. -/
def int? (text : Text) : Option Int :=
  signed? text.strip

------------------------------------------------------------
-- Items Of Dictionaries
------------------------------------------------------------

section Items

variable {Value : Type}

/-
  A dictionary with the value of a key set: a key that is
  there keeps its place, a new key comes last.
-/
def setItem
    (key : Text)
    (value : Value)
    (items : List (Text × Value)) :
    List (Text × Value) :=
  if key ∈ items.map Prod.fst then
    items.map fun item =>
      if item.1 = key then (key, value) else item
  else
    items ++ [(key, value)]

/- The keys behind a change are the old ones and the key. -/
theorem keys_setItem
    (key : Text)
    (value : Value)
    (items : List (Text × Value)) :
    (setItem key value items).map Prod.fst =
      if key ∈ items.map Prod.fst then items.map Prod.fst
      else items.map Prod.fst ++ [key] := by
  unfold setItem
  by_cases hKey : key ∈ items.map Prod.fst
  · rw [if_pos hKey, if_pos hKey, List.map_map]
    apply List.map_congr_left
    intro item _
    rw [Function.comp_apply]
    split
    · rename_i hItem
      exact hItem.symm
    · rfl
  · rw [if_neg hKey, if_neg hKey, List.map_append,
      List.map_singleton]

/- No key comes twice. -/
theorem nodup_keys_setItem
    {items : List (Text × Value)}
    (hItems : (items.map Prod.fst).Nodup)
    (key : Text)
    (value : Value) :
    ((setItem key value items).map Prod.fst).Nodup := by
  rw [keys_setItem]
  split
  · exact hItems
  · rename_i hKey
    rw [List.nodup_append]
    refine ⟨hItems, List.nodup_singleton key, ?_⟩
    intro other hOther new hNew hEq
    rw [List.mem_singleton] at hNew
    rw [hEq, hNew] at hOther
    exact hKey hOther

/- A key is there if it was there or was set. -/
theorem mem_keys_setItem
    {key other : Text}
    {value : Value}
    {items : List (Text × Value)} :
    other ∈ (setItem key value items).map Prod.fst ↔
      other = key ∨ other ∈ items.map Prod.fst := by
  rw [keys_setItem]
  split
  · rename_i hKey
    constructor
    · exact Or.inr
    · rintro (rfl | hOther)
      · exact hKey
      · exact hOther
  · rw [List.mem_append, List.mem_singleton, or_comm]

end Items

end LegalAgent
