/-!
# Octets as text

UTF-8 read octet by octet. A reader holds the beginning of one character at most; an octet that
cannot continue it leaves the octets held so far as a stray piece and is read afresh.
-/

set_option autoImplicit false

namespace ChainLedger.Text

inductive Piece
  | character (value : Char)
  | stray (octets : Nat)
  deriving DecidableEq, Repr

/-- The beginning of a character: the bits so far, how many octets were read and how many are
owed, and the bounds of the next one. -/
structure Partial where
  bits : Nat
  held : Nat
  owed : Nat
  low : Nat := 0x80
  high : Nat := 0xBF
  deriving DecidableEq, Repr

structure OctetReader where
  pieces : List Piece := []
  pending : Option Partial := none
  deriving DecidableEq, Repr

namespace OctetReader

def first (reader : OctetReader) (octet : Nat) : OctetReader :=
  if octet < 0x80 then
    ⟨.character (Char.ofNat octet) :: reader.pieces, none⟩
  else if 0xC2 ≤ octet ∧ octet ≤ 0xDF then
    ⟨reader.pieces, some { bits := octet - 0xC0, held := 1, owed := 1 }⟩
  else if 0xE0 ≤ octet ∧ octet ≤ 0xEF then
    let low := if octet = 0xE0 then 0xA0 else 0x80
    let high := if octet = 0xED then 0x9F else 0xBF
    ⟨reader.pieces, some { bits := octet - 0xE0, held := 1, owed := 2, low, high }⟩
  else if 0xF0 ≤ octet ∧ octet ≤ 0xF4 then
    let low := if octet = 0xF0 then 0x90 else 0x80
    let high := if octet = 0xF4 then 0x8F else 0xBF
    ⟨reader.pieces, some { bits := octet - 0xF0, held := 1, owed := 3, low, high }⟩
  else
    ⟨.stray 1 :: reader.pieces, none⟩

def step (reader : OctetReader) (octet : Nat) : OctetReader :=
  match reader.pending with
  | none => reader.first octet
  | some part =>
    if part.low ≤ octet ∧ octet ≤ part.high then
      let bits := part.bits * 64 + (octet - 0x80)
      if part.owed = 1 then
        ⟨.character (Char.ofNat bits) :: reader.pieces, none⟩
      else
        ⟨reader.pieces, some { bits, held := part.held + 1, owed := part.owed - 1 }⟩
    else
      first ⟨.stray part.held :: reader.pieces, none⟩ octet

def finish (reader : OctetReader) : List Piece :=
  match reader.pending with
  | none => reader.pieces.reverse
  | some part => (.stray part.held :: reader.pieces).reverse

end OctetReader

def piecesOf (octets : List Nat) : List Piece :=
  (octets.foldl OctetReader.step {}).finish

/-- Text in which every stray piece is shown as one replacement character. -/
def Piece.shown : Piece → Char
  | .character value => value
  | .stray _ => '\uFFFD'

def shownText (octets : List Nat) : String :=
  String.ofList ((piecesOf octets).map Piece.shown)

def octetsOf (text : String) : List Nat :=
  text.toUTF8.toList.map UInt8.toNat

end ChainLedger.Text
