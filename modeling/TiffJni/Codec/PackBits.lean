import TiffJni.Machine.FixedWidth
import TiffJni.Machine.Program
import Mathlib.Data.List.TakeWhile

/-! # The PackBits codec

`tif_packbits.c`, with the part of `tif_write.c` that empties the raw data buffer. The
buffer keeps its size, pointers into it are offsets, and an access outside it is a fault,
so what the space check of the encoder leaves out would become visible. A decoder reads
the buffer behind `tif_rawcp`, of which `tif_rawcc` bytes belong to the strip.
-/
namespace TiffJni.Codec
open FixedWidth Machine

def toByte (x : ℤ) : UInt8 := UInt8.ofNat (toUnsigned 8 x)

inductive EncodeFault
  | outOfBounds
  | flushFailed
  | stillRunning
  deriving DecidableEq, Repr

inductive EncodeState
  | base
  | literal
  | run
  | literalRun
  deriving DecidableEq, Repr

/-- The raw data buffer while a strip is written, with the bytes of the strip that left it. -/
structure RawData where
  strip : List UInt8
  rawdata : List UInt8
  rawcp : ℕ
  rawcc : ℕ
  op : ℕ
  lastliteral : ℕ
  deriving DecidableEq, Repr

namespace RawData

def rawdatasize (e : RawData) : ℕ := e.rawdata.length

def fetch (e : RawData) (p : ℕ) : Except EncodeFault UInt8 :=
  match e.rawdata[p]? with
  | none => .error .outOfBounds
  | some b => .ok b

def assign (e : RawData) (p : ℕ) (b : UInt8) : Except EncodeFault RawData :=
  if p < e.rawdatasize then .ok { e with rawdata := e.rawdata.set p b } else .error .outOfBounds

def put (e : RawData) (b : UInt8) : Except EncodeFault RawData := do
  let e ← e.assign e.op b
  return { e with op := e.op + 1 }

/-- `TIFFFlushData1` of a file being written in the fill order of the host, so that no bits are reversed;
`appends` answers for `TIFFAppendToStrip`. -/
def flushData1 (appends : List UInt8 → List UInt8 → Bool) (e : RawData) : Except EncodeFault RawData :=
  if 0 < e.rawcc then
    let data := e.rawdata.take e.rawcc
    if appends e.strip data then .ok { e with strip := e.strip ++ data, rawcc := 0, rawcp := 0 }
    else .error .flushFailed
  else .ok e

/-- `while (slop-- > 0) *op++ = *lastliteral++;` -/
def copyLiteral : ℕ → RawData → Except EncodeFault RawData
  | 0, e => .ok e
  | slop + 1, e => do
    let b ← e.fetch e.lastliteral
    let e ← e.put b
    copyLiteral slop { e with lastliteral := e.lastliteral + 1 }

/-- The space check at the label `again`. -/
def makeRoom (appends : List UInt8 → List UInt8 → Bool) (state : EncodeState) (e : RawData) :
    Except EncodeFault RawData :=
  if e.rawdatasize ≤ e.op + 2 then
    if state = .literal ∨ state = .literalRun then do
      let slop := e.op - e.lastliteral
      let e ← flushData1 appends { e with rawcc := e.rawcc + (e.lastliteral - e.rawcp) }
      let e ← copyLiteral slop { e with op := e.rawcp }
      return { e with lastliteral := e.rawcp }
    else do
      let e ← flushData1 appends { e with rawcc := e.rawcc + (e.op - e.rawcp) }
      return { e with op := e.rawcp }
  else .ok e

end RawData

inductive Turn
  | again (state : EncodeState) (n : ℕ)
  | done (state : EncodeState)
  deriving DecidableEq, Repr

/-- The branch of a run of `n > 1` bytes, which goes on in `state`. -/
def emitRun (state : EncodeState) (n : ℕ) (b : UInt8) (e : RawData) : Except EncodeFault (Turn × RawData) :=
  if 128 < n then do
    let e ← e.put (toByte (-127))
    let e ← e.put b
    return (.again state (n - 128),e)
  else do
    let e ← e.put (toByte (-(n - 1 : ℤ)))
    let e ← e.put b
    return (.done state,e)

def startLiteral (b : UInt8) (e : RawData) : Except EncodeFault (Turn × RawData) := do
  let e ← { e with lastliteral := e.op }.put 0
  let e ← e.put b
  return (.done .literal,e)

/-- The branch that extends a literal: `++(*lastliteral) == 127` closes it. -/
def extendLiteral (b : UInt8) (e : RawData) : Except EncodeFault (Turn × RawData) := do
  let count ← e.fetch e.lastliteral
  let e ← e.assign e.lastliteral (count + 1)
  let e ← e.put b
  return (.done (if count + 1 = 127 then .base else .literal),e)

/-- The case `LITERAL_RUN`: a run of two between literals becomes part of the literal. -/
def mergeRun (n : ℕ) (e : RawData) : Except EncodeFault (Turn × RawData) := do
  let count ← e.fetch e.lastliteral
  let header ← e.fetch (e.op - 2)
  if n = 1 ∧ header = toByte (-1) ∧ count < 126 then
    let e ← e.assign e.lastliteral (count + 2)
    let replicated ← e.fetch (e.op - 1)
    let e ← e.assign (e.op - 2) replicated
    return (.again (if count + 2 = 127 then .base else .literal) n,e)
  else return (.again .run n,e)

def encodeTurn (state : EncodeState) (n : ℕ) (b : UInt8) (e : RawData) : Except EncodeFault (Turn × RawData) :=
  match state with
  | .base => if 1 < n then emitRun .run n b e else startLiteral b e
  | .literal => if 1 < n then emitRun .literalRun n b e else extendLiteral b e
  | .run => if 1 < n then emitRun .run n b e else startLiteral b e
  | .literalRun => mergeRun n e

/-- What every `goto again` makes smaller. -/
def EncodeState.measure (state : EncodeState) (n : ℕ) : ℕ := 2 * n + if state = .literalRun then 1 else 0

theorem emitRun_again {next state : EncodeState} {n n' : ℕ} {b : UInt8} {e e' : RawData}
    (h : emitRun next n b e = .ok (.again state n',e')) : 128 < n ∧ n' = n - 128 := by
  unfold emitRun at h
  split at h
  · rename_i hlong
    obtain ⟨e₁,-,h⟩ := bind_eq_ok.mp h
    obtain ⟨e₂,-,h⟩ := bind_eq_ok.mp h
    cases h
    exact ⟨hlong,rfl⟩
  · obtain ⟨e₁,-,h⟩ := bind_eq_ok.mp h
    obtain ⟨e₂,-,h⟩ := bind_eq_ok.mp h
    cases h

theorem startLiteral_done {b : UInt8} {e e' : RawData} {turn : Turn} (h : startLiteral b e = .ok (turn,e')) :
    turn = .done .literal := by
  obtain ⟨e₁,-,h⟩ := bind_eq_ok.mp h
  obtain ⟨e₂,-,h⟩ := bind_eq_ok.mp h
  cases h
  rfl

theorem mergeRun_again {state : EncodeState} {n n' : ℕ} {e e' : RawData}
    (h : mergeRun n e = .ok (.again state n',e')) : state ≠ .literalRun ∧ n' = n := by
  obtain ⟨count,-,h⟩ := bind_eq_ok.mp h
  obtain ⟨header,-,h⟩ := bind_eq_ok.mp h
  split at h
  · obtain ⟨e₁,-,h⟩ := bind_eq_ok.mp h
    obtain ⟨replicated,-,h⟩ := bind_eq_ok.mp h
    obtain ⟨e₂,-,h⟩ := bind_eq_ok.mp h
    cases h
    refine ⟨?_,rfl⟩
    split <;> decide
  · cases h
    exact ⟨by decide,rfl⟩

theorem extendLiteral_again {state : EncodeState} {b : UInt8} {n' : ℕ} {e e' : RawData} :
    extendLiteral b e ≠ .ok (.again state n',e') := by
  intro h
  obtain ⟨count,-,h⟩ := bind_eq_ok.mp h
  obtain ⟨e₁,-,h⟩ := bind_eq_ok.mp h
  obtain ⟨e₂,-,h⟩ := bind_eq_ok.mp h
  cases h

theorem encodeTurn_again {state next : EncodeState} {n n' : ℕ} {b : UInt8} {e e' : RawData}
    (h : encodeTurn state n b e = .ok (.again next n',e')) : next.measure n' < state.measure n := by
  have hrun : ∀ {s : EncodeState}, (if 1 < n then emitRun s n b e else startLiteral b e) = .ok (.again next n',e') →
      next.measure n' < state.measure n := by
    intro s h
    split at h
    · obtain ⟨hlong,hn⟩ := emitRun_again h
      unfold EncodeState.measure
      split <;> split <;> omega
    · cases startLiteral_done h
  cases state with
  | base => exact hrun h
  | run => exact hrun h
  | literal =>
    rw [encodeTurn] at h
    split at h
    · obtain ⟨hlong,hn⟩ := emitRun_again h
      unfold EncodeState.measure
      split <;> split <;> omega
    · exact absurd h extendLiteral_again
  | literalRun =>
    obtain ⟨hne,rfl⟩ := mergeRun_again h
    unfold EncodeState.measure
    rw [if_neg hne, if_pos rfl]
    omega

/-- From the label `again` on: the `switch` until it breaks. -/
def encodeObject (appends : List UInt8 → List UInt8 → Bool) (b : UInt8) (state : EncodeState) (n : ℕ)
    (e : RawData) : Except EncodeFault (EncodeState × RawData) :=
  match e.makeRoom appends state with
  | .error f => .error f
  | .ok e =>
    match _h : encodeTurn state n b e with
    | .error f => .error f
    | .ok (.done next,e) => .ok (next,e)
    | .ok (.again next n',e) => encodeObject appends b next n' e
termination_by state.measure n
decreasing_by exact encodeTurn_again _h

def encodeLoop (appends : List UInt8 → List UInt8 → Bool) (state : EncodeState) :
    List UInt8 → RawData → Except EncodeFault RawData
  | [], e => .ok e
  | b :: bp, e =>
    match encodeObject appends b state (1 + (bp.takeWhile (b == ·)).length) e with
    | .error f => .error f
    | .ok (state,e) => encodeLoop appends state (bp.dropWhile (b == ·)) e
termination_by bp => bp.length
decreasing_by
  have := List.length_dropWhile_le (b == ·) bp
  simp only [List.length_cons]
  omega

def packBitsEncode (appends : List UInt8 → List UInt8 → Bool) (buf : List UInt8) (e : RawData) :
    Except EncodeFault RawData :=
  match encodeLoop appends .base buf { e with op := e.rawcp, lastliteral := 0 } with
  | .error f => .error f
  | .ok e => .ok { e with rawcc := e.rawcc + (e.op - e.rawcp), rawcp := e.op }

/-- Row by row; a row size of zero makes no progress. -/
def packBitsEncodeChunk (appends : List UInt8 → List UInt8 → Bool) (rowsize : ℕ) :
    List UInt8 → RawData → Except EncodeFault RawData
  | [], e => .ok e
  | b :: bp, e =>
    if _hrow : rowsize = 0 then .error .stillRunning
    else
      match packBitsEncode appends ((b :: bp).take rowsize) e with
      | .error f => .error f
      | .ok e => packBitsEncodeChunk appends rowsize ((b :: bp).drop rowsize) e
termination_by bp => bp.length
decreasing_by
  simp only [List.length_drop, List.length_cons]
  omega

/-- What a decode leaves: the bytes written, what `tif_rawcp` and `tif_rawcc` are, and what is missing. -/
structure Decoded where
  written : List UInt8
  rawcp : List UInt8
  rawcc : ℤ
  occ : ℕ
  deriving DecidableEq, Repr

def Decoded.Succeeds (d : Decoded) : Prop := d.occ = 0

/-- A `char` of the target, which need not be signed. -/
def plainChar (charSigned : Bool) (b : UInt8) : ℤ := if charSigned then toSigned 8 b.toNat else b.toNat

/-- `n` after the sign was made sure of. -/
def headerOf (charSigned : Bool) (b : UInt8) : ℤ :=
  if 128 ≤ plainChar charSigned b then plainChar charSigned b - 256 else plainChar charSigned b

/-- The loop of `PackBitsDecode`; no result when it reads outside the buffer. -/
def decodeLoop (charSigned : Bool) (bp : List UInt8) (cc : ℤ) (occ : ℕ) (op : List UInt8) : Option Decoded :=
  if 0 < cc ∧ 0 < occ then
    match bp with
    | [] => none
    | h :: bp =>
      let n := headerOf charSigned h
      if n < 0 then
        if n = -128 then decodeLoop charSigned bp (cc - 1) occ op
        else
          let n := min (-n + 1).toNat occ
          match bp with
          | [] => none
          | b :: bp => decodeLoop charSigned bp (cc - 2) (occ - n) (op ++ List.replicate n b)
      else
        let n := min n.toNat (occ - 1)
        if cc - 1 < n + 1 then some ⟨op,bp,cc - 1,occ⟩
        else if bp.length < n + 1 then none
        else decodeLoop charSigned (bp.drop (n + 1)) (cc - 1 - (n + 1)) (occ - (n + 1)) (op ++ bp.take (n + 1))
  else some ⟨op,bp,cc,occ⟩
termination_by bp.length
decreasing_by
  all_goals simp only [List.length_cons, List.length_drop]
  all_goals omega

/-- `PackBitsDecode` on the bytes of the buffer from `tif_rawcp` on. -/
def packBitsDecode (charSigned : Bool) (rawcp : List UInt8) (rawcc : ℤ) (occ : ℕ) : Option Decoded :=
  decodeLoop charSigned rawcp rawcc occ []

/-- `TIFFReadScanline` for `count` rows in order; no result when one of them is not complete. -/
def packBitsDecodeRows (charSigned : Bool) (scanlinesize : ℕ) :
    ℕ → List UInt8 → ℤ → Option (List (List UInt8))
  | 0, _, _ => some []
  | count + 1, rawcp, rawcc => do
    let d ← packBitsDecode charSigned rawcp rawcc scanlinesize
    if d.occ = 0 then
      let rows ← packBitsDecodeRows charSigned scanlinesize count d.rawcp d.rawcc
      return d.written :: rows
    else none

end TiffJni.Codec
