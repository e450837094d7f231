/-
Bytes written down as text, in std:encoding.

A byte array is a list of numbers here, so that a decoder which left 0 to 255 would
show.  The numbers stay below 2^24, where a double is exact.  An error of a decoder is
a value; what is thrown stands outside of it.
-/

import CScript.Foundation.Formatted
import CScript.Runtime.Value

namespace CScript.Encoding

open Foundation.Formatted (decimalDigits)

abbrev Text := List UInt8

/-- What `Result.ok` and `Result.err` hold. -/
abbrev Result (α : Type) := Except Text α

/-! ### Base64 -/

def STANDARD : Text :=
  ascii "ABCDEFGHIJKLMNOPQRSTUVWXYZabcdefghijklmnopqrstuvwxyz0123456789+/"

def URL_SAFE : Text :=
  ascii "ABCDEFGHIJKLMNOPQRSTUVWXYZabcdefghijklmnopqrstuvwxyz0123456789-_"

def symbol (alphabet : Text) (place : Nat) : UInt8 :=
  alphabet.getD place 0

def encodeWith (alphabet : Text) (pad : Bool) : List Nat → Text
  | [] => []
  | [a] =>
      let block := a * 65536
      [symbol alphabet (block / 262144 % 64), symbol alphabet (block / 4096 % 64)] ++
        if pad then ascii "==" else []
  | [a, b] =>
      let block := a * 65536 + b * 256
      [symbol alphabet (block / 262144 % 64), symbol alphabet (block / 4096 % 64),
        symbol alphabet (block / 64 % 64)] ++ if pad then ascii "=" else []
  | a :: b :: c :: rest =>
      let block := a * 65536 + b * 256 + c
      [symbol alphabet (block / 262144 % 64), symbol alphabet (block / 4096 % 64),
        symbol alphabet (block / 64 % 64), symbol alphabet (block % 64)] ++
        encodeWith alphabet pad rest

def toBase64 (bytes : List Nat) : Text :=
  encodeWith STANDARD true bytes

def toBase64Url (bytes : List Nat) : Text :=
  encodeWith URL_SAFE false bytes

def isSkipped (c : UInt8) : Bool :=
  c = '='.toUInt8 || c = '\n'.toUInt8 || c = '\r'.toUInt8 || c = ' '.toUInt8

def base64Value (c : UInt8) : Option Nat :=
  if 65 ≤ c ∧ c ≤ 90 then some (c.toNat - 65)
  else if 97 ≤ c ∧ c ≤ 122 then some (c.toNat - 71)
  else if 48 ≤ c ∧ c ≤ 57 then some (c.toNat + 4)
  else if c = '+'.toUInt8 ∨ c = '-'.toUInt8 then some 62
  else if c = '/'.toUInt8 ∨ c = '_'.toUInt8 then some 63
  else none

/-- The loop of `fromBase64` from the character at `i` on. -/
def fromBase64Loop (i block held : Nat) : Text → Result (List Nat)
  | [] =>
      if held = 1 then .error (ascii "base64 ends in a single character")
      else if held = 2 then .ok [block / 16 % 256]
      else if held = 3 then
        let data := block / 4
        .ok [data / 256 % 256, data % 256]
      else .ok []
  | character :: rest =>
      if isSkipped character then fromBase64Loop (i + 1) block held rest
      else
        match base64Value character with
        | none =>
            .error (ascii "'" ++ [character] ++ ascii "' at " ++ decimalDigits i ++
              ascii " is not a base64 character")
        | some value =>
            let block := block * 64 + value
            if held + 1 = 4 then
              (fromBase64Loop (i + 1) 0 0 rest).map
                ([block / 65536 % 256, block / 256 % 256, block % 256] ++ ·)
            else fromBase64Loop (i + 1) block (held + 1) rest

def fromBase64 (text : Text) : Result (List Nat) :=
  fromBase64Loop 0 0 0 text

/-! ### Hex -/

def HEX : Text :=
  ascii "0123456789abcdef"

def toUpperCase (c : UInt8) : UInt8 :=
  if 97 ≤ c ∧ c ≤ 122 then c - 32 else c

def toHex (bytes : List Nat) (upper : Bool) : Text :=
  bytes.flatMap fun byte =>
    let pair := [symbol HEX (byte / 16), symbol HEX (byte % 16)]
    if upper then pair.map toUpperCase else pair

def hexValue (code : UInt8) : Option Nat :=
  if 48 ≤ code ∧ code ≤ 57 then some (code.toNat - 48)
  else if 97 ≤ code ∧ code ≤ 102 then some (code.toNat - 87)
  else if 65 ≤ code ∧ code ≤ 70 then some (code.toNat - 55)
  else none

def hexPair (high low : UInt8) : Option Nat := do
  let high ← hexValue high
  let low ← hexValue low
  some (high * 16 + low)

/-- The loop of `fromHex`; the number of digits is even. -/
def fromHexLoop (i : Nat) : Text → Result (List Nat)
  | high :: low :: rest =>
      match hexPair high low with
      | none =>
          .error (ascii "'" ++ [high, low] ++ ascii "' at " ++ decimalDigits i ++
            ascii " is not a hex pair")
      | some byte => (fromHexLoop (i + 2) rest).map (byte :: ·)
  | _ => .ok []

def hexDigits (text : Text) : Text :=
  if (ascii "0x").isPrefixOf text || (ascii "0X").isPrefixOf text then text.drop 2 else text

def fromHex (text : Text) : Result (List Nat) :=
  if (hexDigits text).length % 2 ≠ 0 then .error (ascii "hex has an odd number of digits")
  else fromHexLoop 0 (hexDigits text)

/-! ### Percent-encoding -/

def isUnreserved (code : UInt8) : Bool :=
  (65 ≤ code && code ≤ 90) || (97 ≤ code && code ≤ 122) || (48 ≤ code && code ≤ 57) ||
    code = 45 || code = 46 || code = 95 || code = 126

def percentEncode (text : Text) : Text :=
  text.flatMap fun code =>
    if isUnreserved code then [code]
    else ['%'.toUInt8, toUpperCase (symbol HEX (code.toNat / 16)),
      toUpperCase (symbol HEX (code.toNat % 16))]

/-- The loop of `percentDecode` from the character at `i` on. -/
def percentDecodeLoop (i : Nat) : Text → Result (List Nat)
  | [] => .ok []
  | character :: rest =>
      if character = '+'.toUInt8 then (percentDecodeLoop (i + 1) rest).map (32 :: ·)
      else if character ≠ '%'.toUInt8 then
        (percentDecodeLoop (i + 1) rest).map (character.toNat :: ·)
      else
        match rest with
        | high :: low :: rest =>
            match hexPair high low with
            | none =>
                .error (ascii "'%" ++ [high, low] ++ ascii "' at " ++ decimalDigits i ++
                  ascii " is not a percent escape")
            | some byte => (percentDecodeLoop (i + 3) rest).map (byte :: ·)
        | _ =>
            .error (ascii "a % at " ++ decimalDigits i ++ ascii " with no digits after it")

/-- `check` of std:bytes, of a number that is whole and not negative. -/
def check (value at_ : Nat) : Except Text UInt8 :=
  if 255 < value then
    .error (ascii "byte " ++ decimalDigits at_ ++
      ascii " is not a whole number from 0 to 255: " ++ decimalDigits value)
  else .ok (UInt8.ofNat value)

/-- `toString` of std:bytes, from the number at `i` on. -/
def toStringFrom (i : Nat) : List Nat → Except Text Text
  | [] => .ok []
  | value :: rest => do
      let byte ← check value i
      let text ← toStringFrom (i + 1) rest
      .ok (byte :: text)

/-- What is thrown is outside of the `Result`. -/
def percentDecode (text : Text) : Except Text (Result Text) :=
  match percentDecodeLoop 0 text with
  | .error message => .ok (.error message)
  | .ok bytes => (toStringFrom 0 bytes).map .ok

/-! ### Base64 is read back -/

theorem isOk_map {α β : Type} (result : Result α) (change : α → β) :
    (result.map change).isOk = result.isOk := by
  cases result <;> rfl

def Readable (alphabet : Text) : Prop :=
  ∀ place < 64, base64Value (symbol alphabet place) = some place

theorem standard_readable : Readable STANDARD := by
  unfold Readable
  decide +kernel

theorem urlSafe_readable : Readable URL_SAFE := by
  unfold Readable
  decide +kernel

theorem base64Value_skipped {c : UInt8} (skipped : isSkipped c = true) : base64Value c = none := by
  unfold isSkipped at skipped
  simp only [Bool.or_eq_true, decide_eq_true_eq] at skipped
  rcases skipped with ((rfl | rfl) | rfl) | rfl <;> rfl

theorem fromBase64Loop_skipped {c : UInt8} (skipped : isSkipped c = true) (i block held : Nat)
    (rest : Text) :
    fromBase64Loop i block held (c :: rest) = fromBase64Loop (i + 1) block held rest := by
  rw [fromBase64Loop, if_pos skipped]

theorem not_skipped {c : UInt8} {value : Nat} (read : base64Value c = some value) :
    ¬isSkipped c = true := by
  intro skipped
  rw [base64Value_skipped skipped] at read
  cases read

theorem fromBase64Loop_digit {c : UInt8} {value : Nat} (read : base64Value c = some value)
    (i block held : Nat) (short : held + 1 ≠ 4) (rest : Text) :
    fromBase64Loop i block held (c :: rest) =
      fromBase64Loop (i + 1) (block * 64 + value) (held + 1) rest := by
  rw [fromBase64Loop, if_neg (not_skipped read), read]
  exact if_neg short

theorem fromBase64Loop_last {c : UInt8} {value : Nat} (read : base64Value c = some value)
    (i block : Nat) (rest : Text) :
    fromBase64Loop i block 3 (c :: rest) =
      (fromBase64Loop (i + 1) 0 0 rest).map
        ([(block * 64 + value) / 65536 % 256, (block * 64 + value) / 256 % 256,
          (block * 64 + value) % 256] ++ ·) := by
  rw [fromBase64Loop, if_neg (not_skipped read), read]
  rfl

theorem fromBase64_encodeWith {alphabet : Text} (readable : Readable alphabet) (pad : Bool)
    (bytes : List Nat) (are : ∀ byte ∈ bytes, byte < 256) (i : Nat) :
    fromBase64Loop i 0 0 (encodeWith alphabet pad bytes) = .ok bytes := by
  have reads (n : Nat) : base64Value (symbol alphabet (n % 64)) = some (n % 64) :=
    readable _ (Nat.mod_lt n (by decide))
  fun_induction encodeWith alphabet pad bytes generalizing i with
  | case1 => rfl
  | case2 a block =>
      have small := are a List.mem_cons_self
      have value : (0 * 64 + block / 262144 % 64) * 64 + block / 4096 % 64 = a * 16 := by
        simp only [block]
        omega
      have byte : a * 16 / 16 % 256 = a := by omega
      rw [List.cons_append, List.cons_append, List.nil_append,
        fromBase64Loop_digit (reads _) _ _ _ (by decide),
        fromBase64Loop_digit (reads _) _ _ _ (by decide), value]
      cases pad <;> exact congrArg (fun n => Except.ok [n]) byte
  | case3 a b block =>
      have small := are a List.mem_cons_self
      have below := are b (List.mem_cons_of_mem a List.mem_cons_self)
      have value : ((0 * 64 + block / 262144 % 64) * 64 + block / 4096 % 64) * 64 +
          block / 64 % 64 = (a * 256 + b) * 4 := by
        simp only [block]
        omega
      have bytes : (a * 256 + b) * 4 / 4 / 256 % 256 = a ∧ (a * 256 + b) * 4 / 4 % 256 = b := by
        omega
      rw [List.cons_append, List.cons_append, List.cons_append, List.nil_append,
        fromBase64Loop_digit (reads _) _ _ _ (by decide),
        fromBase64Loop_digit (reads _) _ _ _ (by decide),
        fromBase64Loop_digit (reads _) _ _ _ (by decide), value]
      cases pad <;> exact congrArg₂ (fun m n => Except.ok [m, n]) bytes.1 bytes.2
  | case4 a b c rest block ih =>
      have small := are a List.mem_cons_self
      have below := are b (by simp)
      have least := are c (by simp)
      have value : (((0 * 64 + block / 262144 % 64) * 64 + block / 4096 % 64) * 64 +
          block / 64 % 64) * 64 + block % 64 = a * 65536 + b * 256 + c := by
        simp only [block]
        omega
      have bytes : (a * 65536 + b * 256 + c) / 65536 % 256 = a ∧
          (a * 65536 + b * 256 + c) / 256 % 256 = b ∧ (a * 65536 + b * 256 + c) % 256 = c := by
        omega
      rw [List.cons_append, List.cons_append, List.cons_append, List.cons_append, List.nil_append,
        fromBase64Loop_digit (reads _) _ _ _ (by decide),
        fromBase64Loop_digit (reads _) _ _ _ (by decide),
        fromBase64Loop_digit (reads _) _ _ _ (by decide), fromBase64Loop_last (reads _), value,
        bytes.1, bytes.2.1, bytes.2.2, ih (fun byte there => are byte (by simp [there]))]
      rfl

/-! ### What base64 is read -/

def base64Digits (text : Text) : Text :=
  text.filter fun c => (base64Value c).isSome

theorem fromBase64Loop_isOk (i block : Nat) {held : Nat} (group : held < 4) (text : Text) :
    (fromBase64Loop i block held text).isOk = true ↔
      (∀ c ∈ text, isSkipped c = true ∨ (base64Value c).isSome = true) ∧
        (held + (base64Digits text).length) % 4 ≠ 1 := by
  induction text generalizing i block held with
  | nil =>
      have cases_ : held = 0 ∨ held = 1 ∨ held = 2 ∨ held = 3 := by omega
      rcases cases_ with rfl | rfl | rfl | rfl <;>
        simp [fromBase64Loop, base64Digits, Except.isOk, Except.toBool]
  | cons c rest ih =>
      rw [List.forall_mem_cons]
      by_cases skipped : isSkipped c = true
      · have plain : base64Digits (c :: rest) = base64Digits rest :=
          List.filter_cons_of_neg (by rw [base64Value_skipped skipped]; exact Bool.false_ne_true)
        rw [fromBase64Loop_skipped skipped, ih _ _ group, plain]
        simp only [skipped, true_or, true_and]
      · cases read : base64Value c with
        | none =>
            rw [fromBase64Loop, if_neg skipped, read]
            simp [skipped, Except.isOk, Except.toBool]
        | some value =>
            have digit : base64Digits (c :: rest) = c :: base64Digits rest :=
              List.filter_cons_of_pos (by rw [read]; rfl)
            rw [digit, List.length_cons]
            by_cases last : held = 3
            · subst last
              rw [fromBase64Loop_last read, isOk_map, ih _ _ (by decide)]
              have same : (3 + ((base64Digits rest).length + 1)) % 4 =
                  (0 + (base64Digits rest).length) % 4 := by omega
              simp only [Option.isSome_some, or_true, true_and, same]
            · rw [fromBase64Loop_digit read _ _ _ (by omega), ih _ _ (by omega)]
              have same : held + ((base64Digits rest).length + 1) =
                  held + 1 + (base64Digits rest).length := by omega
              simp only [Option.isSome_some, or_true, true_and, same]

/-! ### Numbers from 0 to 255 -/

def AnswersBytes (result : Result (List Nat)) : Prop :=
  ∀ bytes, result = .ok bytes → ∀ byte ∈ bytes, byte < 256

theorem answersBytes_error (message : Text) : AnswersBytes (.error message) :=
  fun _ same => nomatch same

theorem answersBytes_ok {bytes : List Nat} (are : ∀ byte ∈ bytes, byte < 256) :
    AnswersBytes (.ok bytes) := by
  rintro _ ⟨⟩
  exact are

theorem AnswersBytes.append {result : Result (List Nat)} (answers : AnswersBytes result)
    {front : List Nat} (are : ∀ byte ∈ front, byte < 256) :
    AnswersBytes (result.map (front ++ ·)) := by
  cases result with
  | error message => exact answersBytes_error message
  | ok bytes =>
      apply answersBytes_ok
      intro byte there
      rcases List.mem_append.mp there with front | rest
      · exact are byte front
      · exact answers bytes rfl byte rest

theorem AnswersBytes.cons {result : Result (List Nat)} (answers : AnswersBytes result) {byte : Nat}
    (is : byte < 256) : AnswersBytes (result.map (byte :: ·)) :=
  @AnswersBytes.append _ answers [byte] fun _ there => List.mem_singleton.mp there ▸ is

theorem fromBase64Loop_bytes (i block held : Nat) (text : Text) :
    AnswersBytes (fromBase64Loop i block held text) := by
  fun_induction fromBase64Loop i block held text with
  | case1 => exact answersBytes_error _
  | case2 => exact answersBytes_ok (by simp; omega)
  | case3 => exact answersBytes_ok (by simp; omega)
  | case4 => exact answersBytes_ok (by simp)
  | case5 i block held character rest skipped ih => exact ih
  | case6 => exact answersBytes_error _
  | case7 i block held character rest skipped value read next last ih =>
      exact ih.append (by simp; omega)
  | case8 i block held character rest skipped value read next more ih => exact ih

theorem hexValue_lt {code : UInt8} {value : Nat} (read : hexValue code = some value) :
    value < 16 := by
  unfold hexValue at read
  split at read
  · next range =>
      cases read
      have last : code.toNat ≤ 57 := range.2
      omega
  · split at read
    · next range =>
        cases read
        have last : code.toNat ≤ 102 := range.2
        omega
    · split at read
      · next range =>
          cases read
          have last : code.toNat ≤ 70 := range.2
          omega
      · cases read

theorem hexPair_eq_some {high low : UInt8} {byte : Nat} (read : hexPair high low = some byte) :
    ∃ a b, hexValue high = some a ∧ hexValue low = some b ∧ byte = a * 16 + b := by
  unfold hexPair at read
  obtain ⟨a, first, read⟩ := Option.bind_eq_some_iff.mp read
  obtain ⟨b, second, same⟩ := Option.bind_eq_some_iff.mp read
  exact ⟨a, b, first, second, (Option.some.inj same).symm⟩

theorem hexPair_lt {high low : UInt8} {byte : Nat} (read : hexPair high low = some byte) :
    byte < 256 := by
  obtain ⟨a, b, first, second, same⟩ := hexPair_eq_some read
  have small := hexValue_lt first
  have below := hexValue_lt second
  omega

theorem fromHexLoop_bytes (i : Nat) (text : Text) : AnswersBytes (fromHexLoop i text) := by
  fun_induction fromHexLoop i text with
  | case1 => exact answersBytes_error _
  | case2 i high low rest byte read ih => exact ih.cons (hexPair_lt read)
  | case3 => exact answersBytes_ok (by simp)

theorem percent_induction {motive : Text → Prop} (nil : motive [])
    (plain : ∀ c rest, c ≠ '%'.toUInt8 → motive rest → motive (c :: rest))
    (escape : ∀ high low rest, motive rest → motive ('%'.toUInt8 :: high :: low :: rest))
    (alone : motive ['%'.toUInt8]) (short : ∀ high, motive ['%'.toUInt8, high]) (text : Text) :
    motive text := by
  generalize size : text.length = length
  induction length using Nat.strong_induction_on generalizing text with
  | _ length ih =>
      subst size
      cases text with
      | nil => exact nil
      | cons c rest =>
          by_cases percent : c = '%'.toUInt8
          · subst percent
            cases rest with
            | nil => exact alone
            | cons high rest =>
                cases rest with
                | nil => exact short high
                | cons low rest => exact escape _ _ _ (ih _ (by simp +arith) rest rfl)
          · exact plain c rest percent (ih _ (Nat.lt_succ_self _) rest rfl)

theorem percentDecodeLoop_bytes (i : Nat) (text : Text) :
    AnswersBytes (percentDecodeLoop i text) := by
  induction text using percent_induction generalizing i with
  | nil => exact answersBytes_ok (by simp)
  | plain character rest plain ih =>
      unfold percentDecodeLoop
      split
      · exact (ih _).cons (by decide)
      · exact (ih _).cons character.toNat_lt
  | escape high low rest ih =>
      rw [percentDecodeLoop, if_neg (by decide), if_neg (fun other => other rfl)]
      cases read : hexPair high low with
      | none => exact answersBytes_error _
      | some byte => exact (ih _).cons (hexPair_lt read)
  | alone => exact answersBytes_error _
  | short high => exact answersBytes_error _

/-! ### Hex is read back -/

theorem hexPair_isSome (high low : UInt8) :
    (hexPair high low).isSome = ((hexValue high).isSome && (hexValue low).isSome) := by
  unfold hexPair
  cases hexValue high <;> cases hexValue low <;> rfl

theorem hexPair_symbols {byte : Nat} (is : byte < 256) :
    hexPair (symbol HEX (byte / 16)) (symbol HEX (byte % 16)) = some byte ∧
      hexPair (toUpperCase (symbol HEX (byte / 16))) (toUpperCase (symbol HEX (byte % 16))) =
        some byte := by
  have digits : ∀ digit < 16, hexValue (symbol HEX digit) = some digit ∧
      hexValue (toUpperCase (symbol HEX digit)) = some digit := by decide +kernel
  have high := digits (byte / 16) (by omega)
  have low := digits (byte % 16) (by omega)
  have whole : byte / 16 * 16 + byte % 16 = byte := by omega
  unfold hexPair
  rw [high.1, high.2, low.1, low.2]
  exact ⟨congrArg some whole, congrArg some whole⟩

theorem toHex_cons (byte : Nat) (bytes : List Nat) (upper : Bool) :
    ∃ high low, toHex (byte :: bytes) upper = high :: low :: toHex bytes upper ∧
      (byte < 256 → hexPair high low = some byte) := by
  cases upper with
  | false => exact ⟨_, _, rfl, fun is => (hexPair_symbols is).1⟩
  | true => exact ⟨_, _, rfl, fun is => (hexPair_symbols is).2⟩

theorem fromHexLoop_toHex (bytes : List Nat) (are : ∀ byte ∈ bytes, byte < 256) (upper : Bool)
    (i : Nat) : fromHexLoop i (toHex bytes upper) = .ok bytes := by
  induction bytes generalizing i with
  | nil => rfl
  | cons byte rest ih =>
      obtain ⟨high, low, written, reads⟩ := toHex_cons byte rest upper
      have read := reads (are byte List.mem_cons_self)
      rw [written, fromHexLoop, read]
      dsimp only
      rw [ih fun byte there => are byte (List.mem_cons_of_mem _ there)]
      rfl

theorem toHex_length (bytes : List Nat) (upper : Bool) :
    (toHex bytes upper).length % 2 = 0 := by
  induction bytes with
  | nil => rfl
  | cons byte rest ih =>
      obtain ⟨high, low, written, _⟩ := toHex_cons byte rest upper
      rw [written, List.length_cons, List.length_cons]
      omega

theorem hexDigits_toHex {bytes : List Nat} (are : ∀ byte ∈ bytes, byte < 256) (upper : Bool) :
    hexDigits (toHex bytes upper) = toHex bytes upper := by
  unfold hexDigits
  apply if_neg
  cases bytes with
  | nil => exact Bool.false_ne_true
  | cons byte rest =>
      obtain ⟨high, low, written, reads⟩ := toHex_cons byte rest upper
      obtain ⟨a, b, _, second, _⟩ := hexPair_eq_some (reads (are byte List.mem_cons_self))
      rw [written]
      intro begins
      simp only [Bool.or_eq_true, List.isPrefixOf_iff_prefix] at begins
      have letter : low = 'x'.toUInt8 ∨ low = 'X'.toUInt8 := by
        rcases begins with ⟨more, same⟩ | ⟨more, same⟩
        · exact .inl (List.cons.inj (List.cons.inj same).2).1.symm
        · exact .inr (List.cons.inj (List.cons.inj same).2).1.symm
      rcases letter with rfl | rfl <;> cases second

theorem fromHex_toHex {bytes : List Nat} (are : ∀ byte ∈ bytes, byte < 256) (upper : Bool) :
    fromHex (toHex bytes upper) = .ok bytes := by
  unfold fromHex
  rw [hexDigits_toHex are, if_neg (fun odd => odd (toHex_length bytes upper))]
  exact fromHexLoop_toHex bytes are upper 0

theorem fromHexLoop_isOk (i : Nat) (text : Text) (even : text.length % 2 = 0) :
    (fromHexLoop i text).isOk = true ↔ ∀ c ∈ text, (hexValue c).isSome = true := by
  fun_induction fromHexLoop i text with
  | case1 i high low rest read =>
      have part := hexPair_isSome high low
      rw [read] at part
      have not_both := Bool.and_eq_false_iff.mp part.symm
      rw [List.forall_mem_cons, List.forall_mem_cons]
      rcases not_both with bad | bad <;> simp [bad, Except.isOk, Except.toBool]
  | case2 i high low rest byte read ih =>
      have part := hexPair_isSome high low
      rw [read] at part
      have both := Bool.and_eq_true_iff.mp part.symm
      rw [isOk_map, ih (by simp only [List.length_cons] at even; omega), List.forall_mem_cons,
        List.forall_mem_cons]
      simp only [both.1, both.2, true_and]
  | case3 text i short =>
      cases text with
      | nil => simp [Except.isOk, Except.toBool]
      | cons c rest =>
          cases rest with
          | nil => cases even
          | cons low rest => exact absurd rfl (short c low rest)

/-! ### Percent-encoding is read back -/

theorem unreserved_ne {code : UInt8} (unreserved : isUnreserved code = true) :
    code ≠ '+'.toUInt8 ∧ code ≠ '%'.toUInt8 := by
  constructor <;> rintro rfl <;> cases unreserved

theorem percentDecodeLoop_plain {c : UInt8} (notPlus : c ≠ '+'.toUInt8)
    (notPercent : c ≠ '%'.toUInt8) (i : Nat) (rest : Text) :
    percentDecodeLoop i (c :: rest) = (percentDecodeLoop (i + 1) rest).map (c.toNat :: ·) := by
  cases rest with
  | nil => exact (if_neg notPlus).trans (if_pos notPercent)
  | cons high rest =>
      cases rest <;> exact (if_neg notPlus).trans (if_pos notPercent)

theorem percentDecodeLoop_escape {high low : UInt8} {byte : Nat}
    (read : hexPair high low = some byte) (i : Nat) (rest : Text) :
    percentDecodeLoop i ('%'.toUInt8 :: high :: low :: rest) =
      (percentDecodeLoop (i + 3) rest).map (byte :: ·) := by
  rw [percentDecodeLoop, if_neg (by decide), if_neg (fun other => other rfl), read]

theorem percentDecodeLoop_percentEncode (text : Text) (i : Nat) :
    percentDecodeLoop i (percentEncode text) = .ok (text.map UInt8.toNat) := by
  induction text generalizing i with
  | nil => rfl
  | cons code rest ih =>
      have unfolded : percentEncode (code :: rest) = (if isUnreserved code then [code]
          else ['%'.toUInt8, toUpperCase (symbol HEX (code.toNat / 16)),
            toUpperCase (symbol HEX (code.toNat % 16))]) ++ percentEncode rest :=
        List.flatMap_cons
      by_cases unreserved : isUnreserved code = true
      · obtain ⟨notPlus, notPercent⟩ := unreserved_ne unreserved
        rw [unfolded, if_pos unreserved, List.singleton_append,
          percentDecodeLoop_plain notPlus notPercent, ih]
        rfl
      · have pair := (hexPair_symbols code.toNat_lt).2
        rw [unfolded, if_neg unreserved, List.cons_append, List.cons_append, List.singleton_append,
          percentDecodeLoop_escape pair, ih]
        rfl

theorem check_byte {value : Nat} (is : value < 256) (at_ : Nat) :
    check value at_ = .ok (UInt8.ofNat value) :=
  if_neg (by omega)

theorem toStringFrom_bytes {bytes : List Nat} (are : ∀ byte ∈ bytes, byte < 256) (i : Nat) :
    toStringFrom i bytes = .ok (bytes.map UInt8.ofNat) := by
  induction bytes generalizing i with
  | nil => rfl
  | cons byte rest ih =>
      rw [toStringFrom, check_byte (are byte List.mem_cons_self),
        ih fun byte there => are byte (List.mem_cons_of_mem _ there)]
      rfl

theorem percentDecode_eq (text : Text) :
    percentDecode text = .ok ((percentDecodeLoop 0 text).map (List.map UInt8.ofNat)) := by
  unfold percentDecode
  cases decoded : percentDecodeLoop 0 text with
  | error message => rfl
  | ok bytes =>
      dsimp only
      rw [toStringFrom_bytes (percentDecodeLoop_bytes 0 text bytes decoded)]
      rfl

theorem percentDecode_percentEncode (text : Text) :
    percentDecode (percentEncode text) = .ok (.ok text) := by
  have back : (text.map UInt8.toNat).map UInt8.ofNat = text := by
    rw [List.map_map]
    exact List.map_id'' (fun _ => UInt8.ofNat_toNat) text
  rw [percentDecode_eq, percentDecodeLoop_percentEncode]
  exact congrArg (fun text => Except.ok (Except.ok text)) back

def Escapes : Text → Prop
  | high :: low :: _ => (hexPair high low).isSome = true
  | _ => False

/-- Every `%` begins an escape. -/
def PercentFormat (text : Text) : Prop :=
  ∀ before after, text = before ++ '%'.toUInt8 :: after → Escapes after

theorem percentFormat_cons {c : UInt8} (plain : c ≠ '%'.toUInt8) (rest : Text) :
    PercentFormat (c :: rest) ↔ PercentFormat rest := by
  constructor
  · exact fun format before after same => format (c :: before) after (congrArg (c :: ·) same)
  · intro format before after same
    cases before with
    | nil => exact absurd (List.cons.inj same).1 plain
    | cons first before => exact format before after (List.cons.inj same).2

theorem percentFormat_escape (rest : Text) :
    PercentFormat ('%'.toUInt8 :: rest) ↔ Escapes rest ∧ PercentFormat rest := by
  constructor
  · exact fun format => ⟨format [] rest rfl,
      fun before after same => format ('%'.toUInt8 :: before) after (congrArg _ same)⟩
  · rintro ⟨escapes, format⟩ before after same
    cases before with
    | nil =>
        cases (List.cons.inj same).2
        exact escapes
    | cons first before => exact format before after (List.cons.inj same).2

theorem percentDecodeLoop_isOk (i : Nat) (text : Text) :
    (percentDecodeLoop i text).isOk = true ↔ PercentFormat text := by
  induction text using percent_induction generalizing i with
  | nil =>
      constructor
      · intro _ before after same
        exact absurd same.symm (List.append_ne_nil_of_right_ne_nil before (List.cons_ne_nil _ _))
      · exact fun _ => rfl
  | plain character rest plain ih =>
      rw [percentFormat_cons plain]
      unfold percentDecodeLoop
      split <;> rw [isOk_map, ih]
  | escape high low rest ih =>
      rw [percentFormat_escape, percentDecodeLoop, if_neg (by decide),
        if_neg (fun other => other rfl)]
      have part := hexPair_isSome high low
      cases read : hexPair high low with
      | none => simp [Escapes, read, Except.isOk, Except.toBool]
      | some byte =>
          rw [read] at part
          obtain ⟨first, second⟩ := Bool.and_eq_true_iff.mp part.symm
          have digit {c : UInt8} (is : (hexValue c).isSome = true) : c ≠ '%'.toUInt8 := by
            rintro rfl
            cases is
          rw [percentFormat_cons (digit first), percentFormat_cons (digit second)]
          simp [Escapes, read, isOk_map, ih]
  | alone =>
      rw [percentFormat_escape]
      exact iff_of_false Bool.false_ne_true fun format => format.1
  | short high =>
      rw [percentFormat_escape]
      exact iff_of_false Bool.false_ne_true fun format => format.1

/-! ### The encodings -/

/-- Bytes come back from each of the encodings, each decoder refuses exactly the texts that
are not of its format, and none of them answers a number that is no byte. -/
theorem encodings_lossless :
    (∀ bytes : List UInt8,
      fromBase64 (toBase64 (bytes.map UInt8.toNat)) = .ok (bytes.map UInt8.toNat) ∧
      fromBase64 (toBase64Url (bytes.map UInt8.toNat)) = .ok (bytes.map UInt8.toNat) ∧
      ∀ upper, fromHex (toHex (bytes.map UInt8.toNat) upper) = .ok (bytes.map UInt8.toNat)) ∧
    (∀ text, percentDecode (percentEncode text) = .ok (.ok text)) ∧
    (∀ text, (fromBase64 text).isOk = false ↔
      (∃ c ∈ text, isSkipped c = false ∧ base64Value c = none) ∨
        (base64Digits text).length % 4 = 1) ∧
    (∀ text, (fromHex text).isOk = false ↔
      (hexDigits text).length % 2 = 1 ∨ ∃ c ∈ hexDigits text, hexValue c = none) ∧
    (∀ text, ∃ result, percentDecode text = .ok result ∧
      (result.isOk = false ↔ ∃ before after, text = before ++ '%'.toUInt8 :: after ∧
        ¬Escapes after)) ∧
    ∀ text, AnswersBytes (fromBase64 text) ∧ AnswersBytes (fromHex text) ∧
      AnswersBytes (percentDecodeLoop 0 text) := by
  have are (bytes : List UInt8) : ∀ byte ∈ bytes.map UInt8.toNat, byte < 256 := by
    intro byte there
    obtain ⟨c, _, rfl⟩ := List.mem_map.mp there
    exact c.toNat_lt
  refine ⟨fun bytes => ⟨?_, ?_, fun upper => fromHex_toHex (are bytes) upper⟩,
    percentDecode_percentEncode, fun text => ?_, fun text => ?_, fun text => ?_, fun text => ?_⟩
  · exact fromBase64_encodeWith standard_readable true _ (are bytes) 0
  · exact fromBase64_encodeWith urlSafe_readable false _ (are bytes) 0
  · have accepts := fromBase64Loop_isOk 0 0 (by decide : 0 < 4) text
    rw [Nat.zero_add] at accepts
    rw [← Bool.not_eq_true, fromBase64, accepts, not_and_or, not_not]
    apply or_congr_left
    simp only [not_forall, not_or, Bool.not_eq_true, Option.isSome_eq_false_iff,
      Option.isNone_iff_eq_none, exists_prop]
  · unfold fromHex
    by_cases odd : (hexDigits text).length % 2 ≠ 0
    · have one : (hexDigits text).length % 2 = 1 := by omega
      rw [if_pos odd]
      exact ⟨fun _ => .inl one, fun _ => rfl⟩
    · have even : (hexDigits text).length % 2 = 0 := not_not.mp odd
      rw [if_neg odd, ← Bool.not_eq_true, fromHexLoop_isOk 0 _ even, even]
      simp only [not_forall, Bool.not_eq_true, Option.isSome_eq_false_iff,
        Option.isNone_iff_eq_none, exists_prop, zero_ne_one, false_or]
  · refine ⟨_, percentDecode_eq text, ?_⟩
    rw [isOk_map, ← Bool.not_eq_true, percentDecodeLoop_isOk]
    simp only [PercentFormat, not_forall, exists_prop]
  · refine ⟨fromBase64Loop_bytes 0 0 0 text, ?_, percentDecodeLoop_bytes 0 text⟩
    unfold fromHex
    split
    · exact answersBytes_error _
    · exact fromHexLoop_bytes 0 _

end CScript.Encoding
