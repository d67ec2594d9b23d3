import PairGrammar.Text

/-!
# Bytes as text

A file is text if its bytes are well-formed UTF-8 throughout; a byte order mark in front is a
character like any other. Where the bytes are not well formed, the flaw is described by the bytes
of the sequence that does not end as it has to, and by their position.

A file whose lines are read one after the other comes in pieces of some number of bytes. A sequence
that the end of a piece cuts short goes on in the next one, and positions are counted from the first
byte that has not been read when a piece comes in.
-/

namespace PairGrammar.Text

/-- What may follow a first byte: the least and the greatest value of each byte. -/
def followers (lead : Nat) : Option (List (Nat × Nat)) :=
  let any := (0x80, 0xBF)
  if lead < 0x80 then some []
  else if lead < 0xC2 then none
  else if lead < 0xE0 then some [any]
  else if lead = 0xE0 then some [(0xA0, 0xBF), any]
  else if lead = 0xED then some [(0x80, 0x9F), any]
  else if lead < 0xF0 then some [any, any]
  else if lead = 0xF0 then some [(0x90, 0xBF), any, any]
  else if lead < 0xF4 then some [any, any, any]
  else if lead = 0xF4 then some [(0x80, 0x8F), any, any]
  else none

inductive FlawKind
  | start
  | continuation
  | cutShort
  deriving DecidableEq, Repr

/-- A flaw and the number of bytes of the sequence that are in order. -/
structure Flaw where
  kind : FlawKind
  position : Nat
  bytes : List UInt8

/-- How many bytes agree with what may follow, and whether a byte or the end of all bytes came
first. -/
def agreeing : List (Nat × Nat) → List UInt8 → Nat × Option FlawKind
  | [], _ => (0, none)
  | _ :: _, [] => (0, some .cutShort)
  | (low, high) :: rs, b :: bs =>
    if low ≤ b.toNat ∧ b.toNat ≤ high then
      match agreeing rs bs with
      | (k, e) => (k + 1, e)
    else (0, some .continuation)

/-- The first flaw; `position` bytes have been passed, and at most `fuel` sequences are read. -/
def findFlaw : (fuel position : Nat) → List UInt8 → Option Flaw
  | 0, _, _ => none
  | _, _, [] => none
  | fuel + 1, position, b :: bs => match followers b.toNat with
    | none => some ⟨.start, position, [b]⟩
    | some rs => match agreeing rs bs with
      | (k, none) => findFlaw fuel (position + k + 1) (bs.drop k)
      | (k, some e) => some ⟨e, position, b :: bs.take k⟩

def Flaw.message (f : Flaw) : String :=
  let reason := match f.kind with
    | .start => "invalid start byte"
    | .continuation => "invalid continuation byte"
    | .cutShort => "unexpected end of data"
  match f.bytes with
  | [b] =>
    let high := hexChar (b.toNat / 16)
    let low := hexChar (b.toNat % 16)
    s!"'utf-8' codec can't decode byte 0x{high}{low} in position {f.position}: {reason}"
  | bs =>
    let last := f.position + bs.length - 1
    s!"'utf-8' codec can't decode bytes in position {f.position}-{last}: {reason}"
where
  hexChar (n : Nat) : Char := ((Nat.toDigits 16 n)[0]?).getD '0'

/-- The first flaw of some bytes. -/
def flaw? (bytes : List UInt8) : Option Flaw := findFlaw (bytes.length + 1) 0 bytes

/-- The text that bytes are, or a message about the flaw in them. -/
def decode (flaw? : List UInt8 → Option Flaw) (b : ByteArray) : Except String Text :=
  match String.fromUTF8? b with
  | some s => .ok s.toList
  | none => .error ((flaw? b.data.toList).elim "" Flaw.message)

/-- The text of a file that is read as a whole. -/
def ofBytes (b : ByteArray) : Except String Text := decode flaw? b

/-! ### Pieces -/

def pieceLength : Nat := 8192

/-- The bytes in pieces, of which there are at most `fuel`. -/
def pieces : (fuel : Nat) → List UInt8 → List (List UInt8)
  | 0, _ => []
  | _, [] => []
  | fuel + 1, bs => bs.take pieceLength :: pieces fuel (bs.drop pieceLength)

/-- No byte is lost, since no piece is empty. -/
theorem flatten_pieces {fuel : Nat} {bs : List UInt8} (h : bs.length ≤ fuel) :
    (pieces fuel bs).flatten = bs := by
  induction fuel generalizing bs with
  | zero =>
    rw [List.eq_nil_of_length_eq_zero (Nat.le_zero.1 h)]
    rfl
  | succ fuel ih =>
    cases bs with
    | nil => rfl
    | cons b bs =>
      have hd : ((b :: bs).drop pieceLength).length ≤ fuel := by
        rw [List.length_drop, pieceLength]
        omega
      rw [pieces, List.flatten_cons, ih hd, List.take_append_drop]
      exact List.cons_ne_nil _ _

/-- The bytes from a flaw on, if they wait for the next piece: a sequence that is cut short, and the
first two bytes of a surrogate, which is no character, as well. -/
def waiting? (bytes : List UInt8) (f : Flaw) : Option (List UInt8) :=
  let rest := bytes.drop f.position
  match f.kind, rest with
  | .cutShort, _ => some rest
  | .continuation, [lead, b] =>
    if lead.toNat = 0xED ∧ 0xA0 ≤ b.toNat ∧ b.toNat ≤ 0xBF then some rest else none
  | _, _ => none

/-- The first flaw of pieces, behind bytes that have been waiting for them. -/
def flawInPieces? : (waiting : List UInt8) → List (List UInt8) → Option Flaw
  | waiting, [] => flaw? waiting
  | waiting, p :: ps => match flaw? (waiting ++ p) with
    | none => flawInPieces? [] ps
    | some f => match waiting? (waiting ++ p) f with
      | none => some f
      | some rest => flawInPieces? rest ps

/-- The text of a file whose lines are read one after the other. -/
def ofPieces (b : ByteArray) : Except String Text :=
  decode (fun bs => flawInPieces? [] (pieces bs.length bs)) b

end PairGrammar.Text
