import Mathlib.Data.List.Basic
import Mathlib.Data.Nat.Notation
import CertRelay.Lib.Text

/-!
# Form-encoded texts

Lists of names and values in the form of a URL's query: pairs between `&`, a name before the
first `=`, spaces written as `+` and bytes as `%` with two hexadecimal digits.  Decoded bytes
are read as UTF-8, and what is not UTF-8 is replaced.

**Results.**
* `decodeComponent_plain`: ASCII text without `%` and `+` stands for itself.
-/

namespace CertRelay
namespace UrlEncoded

section Utf8

/-- `U+FFFD`. -/
def replacement : Char :=
  Char.ofNat 0xFFFD

/-- A character of which some bytes are read: how many are missing, and between which bounds
the next one lies. -/
structure Pending where
  codePoint : ℕ
  needed : ℕ
  lower : ℕ
  upper : ℕ

/-- A byte that begins a character, or is one. -/
def start (b : ℕ) : List Char × Option Pending :=
  if b < 0x80 then ([Char.ofNat b], none)
  else if 0xC2 ≤ b ∧ b ≤ 0xDF then ([], some ⟨b % 0x20, 1, 0x80, 0xBF⟩)
  else if 0xE0 ≤ b ∧ b ≤ 0xEF then
    ([], some ⟨b % 0x10, 2, if b = 0xE0 then 0xA0 else 0x80, if b = 0xED then 0x9F else 0xBF⟩)
  else if 0xF0 ≤ b ∧ b ≤ 0xF4 then
    ([], some ⟨b % 0x08, 3, if b = 0xF0 then 0x90 else 0x80, if b = 0xF4 then 0x8F else 0xBF⟩)
  else ([replacement], none)

/-- A byte, read with what is pending. -/
def step (pending : Option Pending) (b : ℕ) : List Char × Option Pending :=
  match pending with
  | none => start b
  | some p =>
      if p.lower ≤ b ∧ b ≤ p.upper then
        let codePoint := p.codePoint * 0x40 + b % 0x40
        if p.needed = 1 then ([Char.ofNat codePoint], none)
        else ([], some ⟨codePoint, p.needed - 1, 0x80, 0xBF⟩)
      else (replacement :: (start b).1, (start b).2)

/-- The characters of some bytes, with what is pending before them. -/
def decodeFrom (pending : Option Pending) : List UInt8 → List Char
  | [] => if pending.isSome then [replacement] else []
  | b :: rest => (step pending b.toNat).1 ++ decodeFrom (step pending b.toNat).2 rest

end Utf8

section Component

/-- The value of a hexadecimal digit. -/
def hexValue (b : UInt8) : Option ℕ :=
  let n := b.toNat
  if 48 ≤ n ∧ n ≤ 57 then some (n - 48)
  else if 65 ≤ n ∧ n ≤ 70 then some (n - 55)
  else if 97 ≤ n ∧ n ≤ 102 then some (n - 87)
  else none

/-- The byte that two digits stand for. -/
def hexByte (high low : UInt8) : Option UInt8 :=
  (hexValue high).bind (fun h => (hexValue low).map (fun l => UInt8.ofNat (16 * h + l)))

/-- Replace every `%` with two digits after it by their byte. -/
def percentDecode : List UInt8 → List UInt8
  | b :: high :: low :: rest =>
      if b = 37 then
        match hexByte high low with
        | some byte => byte :: percentDecode rest
        | none => b :: percentDecode (high :: low :: rest)
      else b :: percentDecode (high :: low :: rest)
  | bytes => bytes

/-- The bytes of a text in UTF-8. -/
def utf8 (s : String) : List UInt8 :=
  s.toList.flatMap String.utf8EncodeChar

/-- A name or a value. -/
def decodeComponent (s : String) : String :=
  String.ofList (decodeFrom none (percentDecode
    ((utf8 s).map (fun b => if b = 43 then 32 else b))))

/-- The pairs of a query; a part without `=` is a name. -/
def parsePairs (query : String) : List (String × String) :=
  ((Text.split '&' query).filter (fun part => !part.isEmpty)).map (fun part =>
    match Text.splitOnce '=' part with
    | some (name, value) => (decodeComponent name, decodeComponent value)
    | none => (decodeComponent part, ""))

/-- Characters of one byte that form-encoding leaves alone. -/
def Unreserved (c : Char) : Prop :=
  c.toNat < 0x80 ∧ c ≠ '%' ∧ c ≠ '+'

theorem utf8_ascii
    {s : String}
    (h : ∀ c ∈ s.toList, c.toNat < 0x80) :
    utf8 s = s.toList.map (fun c => UInt8.ofNat c.toNat) := by
  unfold utf8
  rw [List.map_eq_flatMap]
  refine List.flatMap_congr (fun c hc => ?_)
  have hlow : c.val.toNat ≤ 0x7F := Nat.le_of_lt_succ (h c hc)
  unfold String.utf8EncodeChar
  exact if_pos hlow

theorem percentDecode_of_not_mem
    {bytes : List UInt8}
    (h : 37 ∉ bytes) :
    percentDecode bytes = bytes := by
  induction bytes with
  | nil =>
      rfl
  | cons b rest ih =>
      have hb : ¬ b = 37 := fun hb => h (hb ▸ List.mem_cons_self)
      have hrest : 37 ∉ rest := fun hmem => h (List.mem_cons_of_mem _ hmem)
      match rest with
      | [] =>
          rfl
      | [_] =>
          rfl
      | high :: low :: rest =>
          rw [percentDecode, if_neg hb, ih hrest]

theorem decodeFrom_ascii
    {l : List Char}
    (h : ∀ c ∈ l, c.toNat < 0x80) :
    decodeFrom none (l.map (fun c => UInt8.ofNat c.toNat)) = l := by
  induction l with
  | nil =>
      rfl
  | cons c l ih =>
      have hc : c.toNat < 0x80 := h c List.mem_cons_self
      have hbyte : (UInt8.ofNat c.toNat).toNat = c.toNat := by
        simp
        omega
      have hstep : step none (UInt8.ofNat c.toNat).toNat = ([c], none) := by
        unfold step start
        rw [hbyte]
        simp [hc]
      rw [List.map_cons, decodeFrom, hstep, ih (fun c hc => h c (List.mem_cons_of_mem _ hc))]
      rfl

/-- **ASCII text without `%` and `+` stands for itself.** -/
theorem decodeComponent_plain
    {s : String}
    (h : ∀ c ∈ s.toList, Unreserved c) :
    decodeComponent s = s := by
  have hascii : ∀ c ∈ s.toList, c.toNat < 0x80 := fun c hc => (h c hc).1
  have hbyte : ∀ c ∈ s.toList, ∀ d : Char, d.toNat < 0x80 → c ≠ d →
      UInt8.ofNat c.toNat ≠ UInt8.ofNat d.toNat := by
    intro c hc d hd hne heq
    have hnat := congrArg UInt8.toNat heq
    have hlow := hascii c hc
    simp at hnat
    exact hne (Char.toNat_inj.1 (by omega))
  have hplus : (utf8 s).map (fun b => if b = 43 then 32 else b) = (utf8 s).map id := by
    refine List.map_congr_left (fun b hb => if_neg ?_)
    rw [utf8_ascii hascii] at hb
    obtain ⟨c, hc, rfl⟩ := List.mem_map.1 hb
    exact hbyte c hc '+' (by decide) (h c hc).2.2
  have hpercent : 37 ∉ utf8 s := by
    rw [utf8_ascii hascii]
    intro hmem
    obtain ⟨c, hc, heq⟩ := List.mem_map.1 hmem
    exact hbyte c hc '%' (by decide) (h c hc).2.1 heq
  unfold decodeComponent
  rw [hplus, List.map_id, percentDecode_of_not_mem hpercent, utf8_ascii hascii,
    decodeFrom_ascii hascii, String.ofList_toList]

end Component

end UrlEncoded
end CertRelay
