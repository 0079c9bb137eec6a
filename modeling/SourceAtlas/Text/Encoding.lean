import SourceAtlas.Text.Cut

/-!
# Texts in files

The bytes of a file are read as UTF-8, or if they are not well formed as Latin-1, where each byte is
the character of that number. Every kind of line end becomes a newline.
-/

set_option autoImplicit false

namespace SourceAtlas.Text

/-- The value that a byte adds to a character it does not start. -/
def continuation? (b : UInt8) : Option Nat :=
  if 0x80 ≤ b && b < 0xC0 then some (b.toNat - 0x80) else none

/-- The characters of well-formed UTF-8, behind those in `done`, the last of which comes first. -/
def utf8From? (done : List Char) : List UInt8 → Option (List Char)
  | [] => some done.reverse
  | a :: rest =>
    if a < 0x80 then utf8From? (Char.ofNat a.toNat :: done) rest
    else
      match rest with
      | [] => none
      | b :: rest =>
        match continuation? b with
        | none => none
        | some x =>
          if a < 0xC2 then none
          else if a < 0xE0 then utf8From? (Char.ofNat ((a.toNat - 0xC0) * 0x40 + x) :: done) rest
          else
            match rest with
            | [] => none
            | c :: rest =>
              match continuation? c with
              | none => none
              | some y =>
                if a < 0xF0 then
                  let n := ((a.toNat - 0xE0) * 0x40 + x) * 0x40 + y
                  if n < 0x800 || (0xD800 ≤ n && n < 0xE000) then none
                  else utf8From? (Char.ofNat n :: done) rest
                else
                  match rest with
                  | [] => none
                  | d :: rest =>
                    match continuation? d with
                    | none => none
                    | some z =>
                      let n := (((a.toNat - 0xF0) * 0x40 + x) * 0x40 + y) * 0x40 + z
                      if n < 0x10000 || 0x10FFFF < n then none
                      else utf8From? (Char.ofNat n :: done) rest

/-- The text that bytes stand for in UTF-8. -/
def utf8? (bytes : List UInt8) : Option (List Char) := utf8From? [] bytes

/-- The text that bytes stand for in Latin-1. -/
def latin1 (bytes : List UInt8) : List Char := bytes.map fun b => Char.ofNat b.toNat

/-- The text of a file. -/
def ofBytes (bytes : List UInt8) : List Char := unifyNewlines ((utf8? bytes).getD (latin1 bytes))

/-- The bytes of a text in UTF-8. -/
def toBytes (text : String) : List UInt8 := text.toUTF8.toList

end SourceAtlas.Text
