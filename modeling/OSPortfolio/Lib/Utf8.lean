import Mathlib.Data.List.Basic

namespace OSPortfolio.Utf8

/-!
# Text in byte strings

A byte string is read as text from left to right: a character where one is encoded, and
otherwise a single byte that is part of none.

* `encode` — the bytes of a text; `Valid` are the byte strings that are one;
* `runes` — what a byte string is read as, `none` for each stray byte;
* `text`, `toValid` — the same with U+FFFD for the stray bytes, as characters and as bytes;
* `text_encode` — reading undoes encoding;
* `toValid_eq_self_iff` — the strings that reading and encoding leave alone are the valid ones.
-/

/-- A byte string. -/
abbrev Bytes := List UInt8

/-- The bytes of a text. -/
def encode (cs : List Char) : Bytes := cs.flatMap String.utf8EncodeChar

/-- The byte string is the encoding of a text. -/
def Valid (s : Bytes) : Prop := ∃ cs, s = encode cs

/-- The character a byte string begins with, if it begins with one. -/
def decodeChar (s : Bytes) : Option Char := s.toByteArray.utf8DecodeChar? 0

/-- Read a byte string whose first `skip` bytes belong to a character already read. -/
def runesFrom : Nat → Bytes → List (Option Char)
  | _, [] => []
  | skip + 1, _ :: s => runesFrom skip s
  | 0, b :: s =>
    match decodeChar (b :: s) with
    | some c => some c :: runesFrom (c.utf8Size - 1) s
    | none => none :: runesFrom 0 s

/-- The characters and stray bytes of a byte string. -/
def runes (s : Bytes) : List (Option Char) := runesFrom 0 s

/-- U+FFFD, which stands for a stray byte. -/
def replacementChar : Char := '\uFFFD'

/-- A byte string as text. -/
def text (s : Bytes) : List Char := (runes s).map (·.getD replacementChar)

/-- A byte string with its stray bytes replaced. -/
def toValid (s : Bytes) : Bytes := encode (text s)

/-! ### Encoding -/

@[simp] theorem encode_nil : encode [] = [] := rfl

@[simp] theorem encode_cons (c : Char) (cs : List Char) :
    encode (c :: cs) = String.utf8EncodeChar c ++ encode cs := rfl

@[simp] theorem encode_append (cs ds : List Char) : encode (cs ++ ds) = encode cs ++ encode ds :=
  List.flatMap_append

/-- The encoding of characters is valid UTF-8. -/
theorem valid_encode (cs : List Char) : Valid (encode cs) := ⟨cs, rfl⟩

@[simp] theorem valid_nil : Valid [] := valid_encode []

/-- Valid UTF-8 stays valid when it is joined. -/
theorem Valid.append {s t : Bytes} (hs : Valid s) (ht : Valid t) : Valid (s ++ t) := by
  obtain ⟨cs, rfl⟩ := hs
  obtain ⟨ds, rfl⟩ := ht
  rw [← encode_append]
  exact valid_encode _

/-! ### Reading -/

/-- An encoded character is read back, whatever follows it. -/
theorem decodeChar_append (c : Char) (s : Bytes) :
    decodeChar (String.utf8EncodeChar c ++ s) = some c := by
  rw [decodeChar, List.toByteArray_append]
  exact ByteArray.utf8DecodeChar?_utf8EncodeChar_append

/-- The fuel of a prefix is enough for the whole string, so the rest is read with its own. -/
theorem runesFrom_append (s t : Bytes) : runesFrom s.length (s ++ t) = runes t := by
  induction s with
  | nil => cases t <;> rfl
  | cons b s ih => exact ih

/-- A character in front is read as itself. -/
theorem runes_encodeChar_append (c : Char) (s : Bytes) :
    runes (String.utf8EncodeChar c ++ s) = some c :: runes s := by
  have hlen : (String.utf8EncodeChar c).length = c.utf8Size := String.length_utf8EncodeChar c
  have hdec := decodeChar_append c s
  cases hc : String.utf8EncodeChar c with
  | nil =>
    -- no character has an empty encoding
    have hpos := c.utf8Size_pos
    rw [← hlen, hc] at hpos
    exact absurd hpos (Nat.lt_irrefl 0)
  | cons b bs =>
    rw [hc] at hlen hdec
    rw [List.cons_append] at hdec ⊢
    show (match decodeChar (b :: (bs ++ s)) with
      | some c => some c :: runesFrom (c.utf8Size - 1) (bs ++ s)
      | none => none :: runesFrom 0 (bs ++ s)) = some c :: runes s
    rw [hdec]
    have hskip : c.utf8Size - 1 = bs.length := by
      rw [← hlen, List.length_cons, Nat.add_sub_cancel]
    show some c :: runesFrom (c.utf8Size - 1) (bs ++ s) = some c :: runes s
    rw [hskip, runesFrom_append]

/-- Encoded characters are read one by one, and then what follows them. -/
theorem runes_encode_append (cs : List Char) (s : Bytes) :
    runes (encode cs ++ s) = cs.map some ++ runes s := by
  induction cs with
  | nil => rfl
  | cons c cs ih =>
    rw [encode_cons, List.append_assoc, runes_encodeChar_append, ih, List.map_cons,
      List.cons_append]

/-- What is encoded is read back. -/
theorem runes_encode (cs : List Char) : runes (encode cs) = cs.map some := by
  have h := runes_encode_append cs []
  rwa [List.append_nil, show runes [] = [] from rfl, List.append_nil] at h

/-- **Reading undoes encoding.** -/
@[simp] theorem text_encode (cs : List Char) : text (encode cs) = cs := by
  rw [text, runes_encode, List.map_map]
  exact List.map_id cs

/-! ### Replacing stray bytes -/

/-- The conversion gives valid UTF-8. -/
theorem valid_toValid (s : Bytes) : Valid (toValid s) := valid_encode _

/-- Valid UTF-8 is not changed by it. -/
theorem Valid.toValid_eq {s : Bytes} (h : Valid s) : toValid s = s := by
  obtain ⟨cs, rfl⟩ := h
  rw [toValid, text_encode]

/-- **Only valid byte strings stay as they are.** -/
theorem toValid_eq_self_iff {s : Bytes} : toValid s = s ↔ Valid s :=
  ⟨fun h => h ▸ valid_toValid s, Valid.toValid_eq⟩

@[simp] theorem toValid_nil : toValid [] = [] := rfl

instance (s : Bytes) : Decidable (Valid s) := decidable_of_iff _ toValid_eq_self_iff

example : text [0x61, 0xff, 0xc3, 0xa9, 0xe2, 0x82] = "a\uFFFDé\uFFFD\uFFFD".toList := by decide

end OSPortfolio.Utf8
