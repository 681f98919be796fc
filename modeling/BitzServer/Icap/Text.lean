import BitzServer.Icap.Stream
import BitzServer.Lib.Fields
import BitzServer.Lib.Numeral

/-!
# Text functions

The text functions of `lib/icap/util.cpp` (`split`, `trim`, `hextodec`, `dectohex`, `itoa`) and the parts of the C and C++
libraries they rest on: `std::isspace` in the C locale, `find_first_of`, `substr`, `vector::at`, formatted extraction of an
unsigned number in hexadecimal, `atoi`.
-/

namespace BitzServer

open Feed

/-! ## Characters -/

/-- `std::isspace` in the C locale. -/
def isSpace (c : Byte) : Bool := c == 32 || (9 ≤ c && c ≤ 13)

/-- The value of a hexadecimal digit of either case. -/
def hexDigit? (c : Byte) : Option Nat :=
  if 48 ≤ c ∧ c ≤ 57 then some (c.toNat - 48)
  else if 97 ≤ c ∧ c ≤ 102 then some (c.toNat - 87)
  else if 65 ≤ c ∧ c ≤ 70 then some (c.toNat - 55)
  else none

def isHexDigit (c : Byte) : Bool := (hexDigit? c).isSome

def isDigit (c : Byte) : Bool := 48 ≤ c && c ≤ 57

/-- The digit printed for a value below 16. -/
def digitByte (d : Nat) : Byte := if d < 10 then (48 + d).toUInt8 else (87 + d).toUInt8

/-- `c > 0` for a `char c`, signed with eight bits, that narrows a byte read by `get()`. -/
def isPositive (c : Byte) : Bool := 0 < c && c < 128

/-- A character of a line of text: ASCII, not NUL, not a line end. -/
def isText (c : Byte) : Bool := isPositive c && c != cr && c != lf

/-- A property of all 256 bytes holds of every byte. -/
theorem forall_byte {P : Byte → Prop} (h : ∀ n < 256, P n.toUInt8) (c : Byte) : P c := by
  have := h c.toNat (UInt8.toNat_lt c)
  rwa [Nat.toUInt8_eq, UInt8.ofNat_toNat] at this

theorem isText_of_isHexDigit (c : Byte) : isHexDigit c = true → isText c = true := by
  revert c
  exact forall_byte (by decide +kernel)

theorem isPositive_of_isText {c : Byte} (h : isText c = true) : isPositive c = true ∧ c ≠ cr ∧ c ≠ lf := by
  simpa [isText, and_assoc] using h

/-- A digit is no blank, no sign, no letter `x` and no separator of the formats. -/
theorem isHexDigit_ne (c : Byte) : isHexDigit c = true → isSpace c = false ∧ c ≠ 45 ∧ c ≠ 43 ∧ c ≠ 120 ∧ c ≠ 88 ∧ c ≠ 59 := by
  revert c
  exact forall_byte (by decide +kernel)

theorem isHexDigit_of_isDigit (c : Byte) : isDigit c = true → isHexDigit c = true := by
  revert c
  exact forall_byte (by decide +kernel)

theorem hexDigit?_digitByte : ∀ d < 16, hexDigit? (digitByte d) = some d := by decide

theorem isDigit_digitByte : ∀ d < 10, isDigit (digitByte d) = true := by decide

/-! ## Machine integers -/

/-- The value of an `int` after a conversion from a wider or an unsigned type. -/
def toInt32 (x : Int) : Int := Int.bmod x (2 ^ 32)

/-- The value of an `unsigned int` after a conversion. -/
def toUInt32 (n : Nat) : Nat := n % 2 ^ 32

theorem toInt32_of_lt {n : Nat} (h : n < 2 ^ 31) : toInt32 n = n := by
  unfold toInt32
  rw [Int.bmod_eq_of_le] <;> omega

theorem toInt32_le (n : Nat) : toInt32 n ≤ n := by
  unfold toInt32
  rw [Int.bmod_def]
  split <;> omega

theorem toInt32_lt (x : Int) : toInt32 x < 2 ^ 31 := by
  unfold toInt32
  rw [Int.bmod_def]
  split <;> omega

@[simp]
theorem toInt32_zero : toInt32 0 = 0 := by decide

theorem toUInt32_of_lt {n : Nat} (h : n < 2 ^ 32) : toUInt32 n = n := Nat.mod_eq_of_lt h

/-! ## Cutting and trimming -/

/-- `vector::at` -/
def vecAt {α : Type} (v : List α) (i : Nat) : Except Fault α :=
  match v[i]? with
  | some a => .ok a
  | none => .error .outOfRange

/-- `string::substr`; without a length, to the end. -/
def substr (str : Bytes) (pos : Nat) (n : Option Nat) : Except Fault Bytes :=
  if pos ≤ str.length then .ok (match n with | some n => (str.drop pos).take n | none => str.drop pos)
  else .error .outOfRange

/-- `string::find_first_of`, none for `npos`. -/
def findFirstOf (str delimiter : Bytes) (pos : Nat) : Option Nat :=
  ((str.drop pos).findIdx? (fun c => delimiter.contains c)).map (pos + ·)

/-- The loop of `split` from `current` on. The first `current` is `npos + 1`, which is 0. -/
def splitLoop (str delimiter : Bytes) : Nat → Nat → Except Fault (List Bytes)
  | 0, _ => .error .diverges
  | fuel + 1, current =>
    match findFirstOf str delimiter current with
    | some next => do
      let field ← substr str current (some (next - current))
      let fields ← splitLoop str delimiter fuel (next + 1)
      return field :: fields
    | none => do
      let field ← substr str current none
      return [field]

def split (str delimiter : Bytes) : Except Fault (List Bytes) := splitLoop str delimiter (str.length + 1) 0

/-- `string::npos`, the greatest `size_t` -/
def npos : UInt64 := 0 - 1

/-- `string::find_first_of` with the `size_t` it returns. -/
def findFirstOfSizeT (str delimiter : Bytes) (pos : UInt64) : UInt64 :=
  match findFirstOf str delimiter pos.toNat with
  | some next => next.toUInt64
  | none => npos

/-- The loop of `split` with the `size_t` variables of the source: `next` is the last delimiter found, `npos` before the first.
Both `next + 1` and `next - current` wrap around. -/
def splitLoopSizeT (str delimiter : Bytes) : Nat → UInt64 → Except Fault (List Bytes)
  | 0, _ => .error .diverges
  | fuel + 1, next => do
    let current := next + 1
    let next := findFirstOfSizeT str delimiter current
    let field ← substr str current.toNat (some (next - current).toNat)
    if next ≠ npos then
      let fields ← splitLoopSizeT str delimiter fuel next
      return field :: fields
    else return [field]

/-- `split` with the `size_t` variables of the source -/
def splitSizeT (str delimiter : Bytes) : Except Fault (List Bytes) := splitLoopSizeT str delimiter (str.length + 1) npos

def ltrim (str : Bytes) : Bytes := str.dropWhile isSpace

def rtrim (str : Bytes) : Bytes := str.rdropWhile isSpace

def trim (str : Bytes) : Bytes := ltrim (rtrim str)

/-- `trim` drops the blanks at both ends. -/
theorem trim_eq (str : Bytes) : trim str = Fields.trim isSpace str := rfl

/-- From any place in the string the loop of `split` cuts what follows at every delimiter. -/
theorem splitLoop_eq (str delimiter : Bytes) : ∀ (fuel current : Nat), current ≤ str.length → str.length < current + fuel →
    splitLoop str delimiter fuel current = .ok ((str.drop current).splitOnP (fun c => delimiter.contains c)) := by
  intro fuel
  induction fuel with
  | zero => intro current h1 h2; omega
  | succ fuel ih =>
    intro current h1 h2
    rw [splitLoop, findFirstOf]
    cases hf : (str.drop current).findIdx? (fun c => delimiter.contains c) with
    | none =>
      have hnone : ∀ c ∈ str.drop current, delimiter.contains c = false := List.findIdx?_eq_none_iff.mp hf
      simp only [Option.map_none, substr, if_pos h1]
      rw [List.splitOnP_eq_singleton hnone]
      rfl
    | some i =>
      obtain ⟨hi, hc, hbefore⟩ := List.findIdx?_eq_some_iff_getElem.mp hf
      rw [List.length_drop] at hi
      have hbefore' : ∀ c ∈ (str.drop current).take i, delimiter.contains c = false := by
        intro c hcm
        obtain ⟨j, hj, rfl⟩ := List.mem_iff_getElem.mp hcm
        rw [List.length_take] at hj
        rw [List.getElem_take]
        simpa using hbefore j (by omega)
      have hsplit : str.drop current = (str.drop current).take i ++ (str.drop current)[i] :: str.drop (current + i + 1) := by
        rw [Nat.add_assoc, ← List.drop_drop, List.getElem_cons_drop, List.take_append_drop]
      simp only [Option.map_some, substr, if_pos h1]
      rw [ih (current + i + 1) (by omega) (by omega)]
      conv_rhs => rw [hsplit]
      rw [List.splitOnP_append_cons_of_forall_mem hbefore' _ hc]
      simp only [Nat.add_sub_cancel_left]
      rfl

/-- `split` cuts a string at every delimiter character, and no `substr` in it is out of range. -/
theorem split_eq (str delimiter : Bytes) :
    split str delimiter = .ok (str.splitOnP (fun c => delimiter.contains c)) := by
  rw [split, splitLoop_eq str delimiter _ 0 (Nat.zero_le _) (by omega), List.drop_zero]

/-- What is found stands in the string, not before the place the search starts at. -/
theorem findFirstOf_bounds {str delimiter : Bytes} {pos next : Nat} (h : findFirstOf str delimiter pos = some next) :
    pos ≤ next ∧ next < str.length := by
  obtain ⟨i, hi, rfl⟩ := Option.map_eq_some_iff.mp h
  obtain ⟨hlt, -⟩ := List.findIdx?_eq_some_iff_getElem.mp hi
  rw [List.length_drop] at hlt
  omega

theorem npos_toNat : npos.toNat = 2 ^ 64 - 1 := by decide

/-- On a string that a `size_t` can index, the wrapping of `size_t` is the exact arithmetic of `splitLoop`: `npos + 1` is 0, and
`npos - current` reaches to the end. -/
theorem splitLoopSizeT_eq {str : Bytes} (delimiter : Bytes) (hsize : str.length < npos.toNat) : ∀ (fuel : Nat) (next : UInt64),
    (next + 1).toNat ≤ str.length → splitLoopSizeT str delimiter fuel next = splitLoop str delimiter fuel (next + 1).toNat := by
  rw [npos_toNat] at hsize
  intro fuel
  induction fuel with
  | zero => intro next _; rfl
  | succ fuel ih =>
    intro next hnext
    rw [splitLoopSizeT, splitLoop, findFirstOfSizeT]
    cases hf : findFirstOf str delimiter (next + 1).toNat with
    | some found =>
      obtain ⟨hle, hlt⟩ := findFirstOf_bounds hf
      have hfound : found.toUInt64.toNat = found := by
        rw [Nat.toUInt64_eq, UInt64.toNat_ofNat', Nat.mod_eq_of_lt (by omega)]
      have hne : found.toUInt64 ≠ npos := by
        intro h
        have := congrArg UInt64.toNat h
        rw [hfound, npos_toNat] at this
        omega
      have hsub : (found.toUInt64 - (next + 1)).toNat = found - (next + 1).toNat := by
        rw [UInt64.toNat_sub_of_le, hfound]
        rw [UInt64.le_iff_toNat_le, hfound]
        exact hle
      have hsucc : (found.toUInt64 + 1).toNat = found + 1 := by
        rw [UInt64.toNat_add, hfound]
        exact Nat.mod_eq_of_lt (by simp; omega)
      simp only [hne, hsub, ne_eq, not_false_eq_true, if_true]
      rw [ih found.toUInt64 (by omega), hsucc]
    | none =>
      have hsub : (npos - (next + 1)).toNat = npos.toNat - (next + 1).toNat :=
        UInt64.toNat_sub_of_le _ _ (by rw [UInt64.le_iff_toNat_le, npos_toNat]; omega)
      have htake : (str.drop (next + 1).toNat).take (npos.toNat - (next + 1).toNat) = str.drop (next + 1).toNat := by
        rw [List.take_of_length_le]
        rw [List.length_drop, npos_toNat]
        omega
      simp only [hsub, substr, if_pos hnext, htake, ne_eq, not_true_eq_false, if_false]

/-- The wrapping of `size_t` in `split` makes no difference. -/
theorem splitSizeT_eq {str : Bytes} (delimiter : Bytes) (hsize : str.length < npos.toNat) :
    splitSizeT str delimiter = split str delimiter :=
  splitLoopSizeT_eq delimiter hsize _ npos (Nat.zero_le _)

/-! ## Numbers -/

/-- The value of a list of hexadecimal digits. -/
def hexValue (digits : Bytes) : Nat := Numeral.value 16 (digits.map (fun c => (hexDigit? c).getD 0))

/-- Formatted extraction of an `unsigned int` in base 16: blanks are skipped; a sign and a `0x` are accepted; no digit gives 0,
overflow the greatest value, a minus sign the negated value. None when only blanks are there: nothing is stored. -/
def extractHex (s : Bytes) : Option Nat :=
  match s.dropWhile isSpace with
  | [] => none
  | c :: rest =>
    let negative := c == 45
    let digits := if c == 45 || c == 43 then rest else c :: rest
    let digits := match digits with
      | 48 :: x :: rest => if x == 120 || x == 88 then rest else digits
      | _ => digits
    let v := hexValue (digits.takeWhile isHexDigit)
    some (if 2 ^ 32 ≤ v then 2 ^ 32 - 1 else if negative then (2 ^ 32 - v) % 2 ^ 32 else v)

/-- `hextodec`: the local `dec` is returned as it is found on the stack when the extraction stores nothing. -/
def hextodec (hex : Bytes) : SockM Nat := do
  match extractHex hex with
  | some dec => return dec
  | none => return (← uninitialised).toNat

def dectohex (dec : Nat) : Bytes := (Numeral.numeral 16 dec).map digitByte

/-- `itoa` of an `int` -/
def itoa (number : Int) : Bytes :=
  (if number < 0 then [45] else []) ++ (Numeral.numeral 10 number.natAbs).map digitByte

/-- The value of a list of decimal digits. -/
def decValue (digits : Bytes) : Nat := Numeral.value 10 (digits.map (fun c => c.toNat - 48))

/-- `atoi`: `strtol` in base 10, which saturates at a `long`, narrowed to an `int`. -/
def atoi (s : Bytes) : Int :=
  let s := s.dropWhile isSpace
  let negative := s.head? == some 45
  let digits := if negative || s.head? == some 43 then s.tail else s
  let v := decValue (digits.takeWhile isDigit)
  toInt32 (if negative then max (-(2 ^ 63)) (-(v : Int)) else min (2 ^ 63 - 1) (v : Int))

/-- Digits alone are extracted as their value, up to saturation. -/
theorem extractHex_digits {digits : Bytes} (hne : digits ≠ []) (hd : ∀ c ∈ digits, isHexDigit c = true) :
    extractHex digits = some (min (hexValue digits) (2 ^ 32 - 1)) := by
  obtain ⟨c, rest, rfl⟩ := List.exists_cons_of_ne_nil hne
  obtain ⟨hs, h45, h43, -⟩ := isHexDigit_ne c (hd c List.mem_cons_self)
  have hdrop : (c :: rest).dropWhile isSpace = c :: rest := List.dropWhile_cons_of_neg (by simp [hs])
  have hx : (match c :: rest with
      | 48 :: x :: r => if x == 120 || x == 88 then r else c :: rest
      | _ => c :: rest) = c :: rest := by
    split
    · rename_i x r heq
      obtain ⟨rfl, rfl⟩ := List.cons.inj heq
      obtain ⟨-, -, -, h120, h88, -⟩ := isHexDigit_ne x (hd x (by simp))
      simp [h120, h88]
    · rfl
  have htake : (c :: rest).takeWhile isHexDigit = c :: rest := List.takeWhile_eq_self_iff.mpr hd
  simp only [extractHex, hdrop, beq_eq_false_iff_ne.mpr h45, beq_eq_false_iff_ne.mpr h43, Bool.or_self,
    Bool.false_eq_true, if_false, hx, htake, Option.some.injEq]
  split <;> omega

/-- `hextodec` of digits alone leaves the stack alone. -/
theorem hextodec_digits {digits : Bytes} (hne : digits ≠ []) (hd : ∀ c ∈ digits, isHexDigit c = true) :
    hextodec digits = pure (min (hexValue digits) (2 ^ 32 - 1)) := by
  rw [hextodec, extractHex_digits hne hd]

/-- `hextodec` returns on every string and reads nothing from the stream. -/
theorem hextodec_within (hex : Bytes) : Within Conn.KeepsInput (hextodec hex) := by
  unfold hextodec
  split
  · exact Within.pure _
  · exact fun s => ⟨_, _, rfl, ⟨rfl, rfl, fun h => ⟨h, rfl, rfl⟩⟩, trivial⟩

theorem hextodec_writesNothing (hex : Bytes) : Keeps Conn.WritesNothing (hextodec hex) := by
  unfold hextodec
  split
  · exact Keeps.pure _
  · exact Keeps.bind uninitialised_writesNothing fun _ => Keeps.pure _

/-- What `dectohex` prints has the value printed, and only digits. -/
theorem hexValue_dectohex (n : Nat) : hexValue (dectohex n) = n := by
  rw [hexValue, dectohex, List.map_map]
  have hmap : (Numeral.numeral 16 n).map ((fun c => (hexDigit? c).getD 0) ∘ digitByte) = Numeral.numeral 16 n := by
    rw [List.map_congr_left (g := id), List.map_id]
    intro d hd
    simp [hexDigit?_digitByte d (Numeral.lt_of_mem_numeral (by decide) hd)]
  rw [hmap, Numeral.value_numeral]

theorem dectohex_digits (n : Nat) : dectohex n ≠ [] ∧ ∀ c ∈ dectohex n, isHexDigit c = true := by
  refine ⟨by simp [dectohex, Numeral.numeral_ne_nil], fun c hc => ?_⟩
  obtain ⟨d, hd, rfl⟩ := List.mem_map.mp hc
  simp [isHexDigit, hexDigit?_digitByte d (Numeral.lt_of_mem_numeral (by decide) hd)]

/-- `atoi` of digits alone, for a value that fits an `int`. -/
theorem atoi_digits {digits : Bytes} (hd : ∀ c ∈ digits, isDigit c = true) (h : decValue digits < 2 ^ 31) :
    atoi digits = decValue digits := by
  have hne : ∀ c ∈ digits, isSpace c = false ∧ c ≠ 45 ∧ c ≠ 43 := by
    intro c hc
    obtain ⟨h1, h2, h3, -⟩ := isHexDigit_ne c (isHexDigit_of_isDigit c (hd c hc))
    exact ⟨h1, h2, h3⟩
  have hdrop : digits.dropWhile isSpace = digits := by
    cases digits with
    | nil => rfl
    | cons c rest => exact List.dropWhile_cons_of_neg (by simp [(hne c List.mem_cons_self).1])
  have hsign : (digits.head? == some 45) = false ∧ (digits.head? == some 43) = false := by
    cases digits with
    | nil => exact ⟨rfl, rfl⟩
    | cons c rest =>
      obtain ⟨-, h2, h3⟩ := hne c List.mem_cons_self
      simp [h2, h3]
  have htake : digits.takeWhile isDigit = digits := List.takeWhile_eq_self_iff.mpr hd
  simp only [atoi, hdrop, hsign, Bool.or_self, Bool.false_eq_true, if_false, htake]
  rw [min_eq_right (by omega)]
  exact toInt32_of_lt h

/-- The decimal digits printed for a number have its value, and are digits. -/
theorem decValue_numeral (n : Nat) : decValue ((Numeral.numeral 10 n).map digitByte) = n := by
  have hdigit : ∀ d < 10, (digitByte d).toNat - 48 = d := by decide
  rw [decValue, List.map_map]
  have hmap : (Numeral.numeral 10 n).map ((fun c : Byte => c.toNat - 48) ∘ digitByte) = Numeral.numeral 10 n := by
    rw [List.map_congr_left (g := id), List.map_id]
    intro d hd
    exact hdigit d (Numeral.lt_of_mem_numeral (by decide) hd)
  rw [hmap, Numeral.value_numeral]

theorem isDigit_of_mem_numeral {n : Nat} {c : Byte} (hc : c ∈ (Numeral.numeral 10 n).map digitByte) : isDigit c = true := by
  obtain ⟨d, hd, rfl⟩ := List.mem_map.mp hc
  exact isDigit_digitByte d (Numeral.lt_of_mem_numeral (by decide) hd)

/-- `itoa` prints a minus sign and digits. -/
theorem mem_itoa {x : Int} {c : Byte} (hc : c ∈ itoa x) : c = 45 ∨ isDigit c = true := by
  rcases List.mem_append.mp hc with hc | hc
  · by_cases hx : x < 0
    · rw [if_pos hx, List.mem_singleton] at hc
      exact Or.inl hc
    · rw [if_neg hx] at hc
      nomatch hc
  · exact Or.inr (isDigit_of_mem_numeral hc)

/-- Different numbers are printed differently. -/
theorem itoa_injective : Function.Injective itoa := by
  have hsign : ∀ m n : Nat, (45 : Byte) :: (Numeral.numeral 10 m).map digitByte ≠ (Numeral.numeral 10 n).map digitByte := by
    intro m n h
    have hmem : (45 : Byte) ∈ (Numeral.numeral 10 n).map digitByte := h ▸ List.mem_cons_self
    exact absurd (isDigit_of_mem_numeral hmem) (by decide)
  have hnat : ∀ m n : Nat, (Numeral.numeral 10 m).map digitByte = (Numeral.numeral 10 n).map digitByte → m = n := by
    intro m n h
    rw [← decValue_numeral m, h, decValue_numeral]
  intro x y h
  unfold itoa at h
  by_cases hx : x < 0
  · by_cases hy : y < 0
    · rw [if_pos hx, if_pos hy] at h
      have := hnat _ _ (List.append_cancel_left h)
      omega
    · rw [if_pos hx, if_neg hy] at h
      exact absurd h (hsign _ _)
  · by_cases hy : y < 0
    · rw [if_neg hx, if_pos hy] at h
      exact absurd h.symm (hsign _ _)
    · rw [if_neg hx, if_neg hy] at h
      have := hnat _ _ h
      omega

end BitzServer
