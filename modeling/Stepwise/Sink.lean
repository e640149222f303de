/-!
# `Stepwise.Sink`: where printed text goes

A sink keeps the bytes it has accepted. It may have room for a limited number of bytes in all; it then
accepts the first bytes of a text that does not fit and refuses the rest.
-/

set_option autoImplicit false

namespace Stepwise

/-- The bytes accepted so far and the room left; no room stands for room without end. -/
structure Sink where
  bytes : ByteArray
  room : Option Nat
deriving Inhabited

namespace Sink

/-- A sink that accepts everything. -/
def unlimited : Sink := ⟨ByteArray.empty, none⟩

/-- A sink that accepts a number of bytes in all. -/
def limited (room : Nat) : Sink := ⟨ByteArray.empty, some room⟩

/-- Writes a text; the answer says whether all of it was accepted. -/
def write (s : Sink) (text : String) : Bool × Sink :=
  let bytes := text.toUTF8
  match s.room with
  | none => (true, { s with bytes := s.bytes ++ bytes })
  | some room =>
    if bytes.size ≤ room then (true, ⟨s.bytes ++ bytes, some (room - bytes.size)⟩)
    -- The cut may lie inside of a character.
    else (false, ⟨s.bytes ++ bytes.extract 0 room, some 0⟩)

/-- Forgets the accepted bytes; the room stays as it is. -/
def clear (s : Sink) : Sink :=
  { s with bytes := ByteArray.empty }

/-- The longest text that the bytes up to `n` write, where at most `fuel` bytes may be left over. -/
def wholeText (bytes : ByteArray) (n : Nat) : Nat → String
  | 0 => ""
  | fuel + 1 =>
    match String.fromUTF8? (bytes.extract 0 n) with
    | some s => s
    | none => wholeText bytes (n - 1) fuel

/-- The accepted bytes as text. Only the last character can have been cut; the replacement character
stands for what is left of it. -/
def text (s : Sink) : String :=
  match String.fromUTF8? s.bytes with
  | some text => text
  | none => wholeText s.bytes (s.bytes.size - 1) 3 ++ "\uFFFD"

end Sink

end Stepwise
