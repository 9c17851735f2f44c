/-!
# UTF-8

Text and bytes are turned into one another. A byte that belongs to no character is kept as a gap, so
that what stands around it can still be read.
-/

namespace NetQuery.Text

/-- The bytes of a text. -/
def utf8 (s : String) : List UInt8 := s.toList.flatMap String.utf8EncodeChar

/-- The six low bits of a byte that continues a character. -/
def continuation? (b : UInt8) : Option Nat :=
  if 0x80 ≤ b.toNat && b.toNat < 0xc0 then some (b.toNat - 0x80) else none

/-- A code point that needs more than `least` and is no surrogate, as a character. -/
def codePoint? (least n : Nat) : Option Char :=
  if least ≤ n && n.isValidChar then some (Char.ofNat n) else none

/-- The character that starts with the byte `b`, and how many of the following bytes belong to
it. -/
def firstChar? (b : UInt8) (rest : List UInt8) : Option (Char × Nat) :=
  let lead := b.toNat
  if lead < 0x80 then some (Char.ofNat lead, 0)
  else if 0xc0 ≤ lead && lead < 0xe0 then
    match (rest.take 3).map continuation? with
    | some x :: _ => (codePoint? 0x80 ((lead - 0xc0) * 64 + x)).map (·, 1)
    | _ => none
  else if 0xe0 ≤ lead && lead < 0xf0 then
    match (rest.take 3).map continuation? with
    | some x :: some y :: _ => (codePoint? 0x800 (((lead - 0xe0) * 64 + x) * 64 + y)).map (·, 2)
    | _ => none
  else if 0xf0 ≤ lead && lead < 0xf8 then
    match (rest.take 3).map continuation? with
    | some x :: some y :: some z :: _ =>
      (codePoint? 0x10000 ((((lead - 0xf0) * 64 + x) * 64 + y) * 64 + z)).map (·, 3)
    | _ => none
  else none

/-- The characters of a sequence of bytes, with a gap for each byte that belongs to none. The first
`taken` bytes belong to a character that has been read already. -/
def ofUtf8From : (taken : Nat) → List UInt8 → List (Option Char)
  | _, [] => []
  | taken + 1, _ :: rest => ofUtf8From taken rest
  | 0, b :: rest =>
    match firstChar? b rest with
    | some (c, more) => some c :: ofUtf8From more rest
    | none => none :: ofUtf8From 0 rest

/-- The characters of a sequence of bytes, with a gap for each byte that belongs to none. -/
def ofUtf8 (bytes : List UInt8) : List (Option Char) := ofUtf8From 0 bytes

end NetQuery.Text
