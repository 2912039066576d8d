import TiffJni.Codec.PackBitsFormat

/-! # What the PackBits encoder writes

The bytes that left the buffer, followed by those in it, are what stood there before and a
list of packets that expands to what was consumed. In the states with a pending literal the last packet is not
settled yet, and a flush carries it over to the start of the emptied buffer. Each turn of the
`switch` keeps this, and with a buffer of 130 bytes none of them writes outside of it.
-/
namespace TiffJni.Codec

/-- `r` has a value with `Q`, unless a flush failed; no other fault is possible. -/
def Yields (appends : List UInt8 → List UInt8 → Bool) {α : Type} (r : Except EncodeFault α) (Q : α → Prop) : Prop :=
  match r with
  | .ok a => Q a
  | .error f => f = .flushFailed ∧ ∃ strip data, appends strip data = false

variable {appends : List UInt8 → List UInt8 → Bool} {α β : Type}

theorem Yields.pure {a : α} {Q : α → Prop} (h : Q a) : Yields appends (.ok a) Q := h

theorem Yields.bind {r : Except EncodeFault α} {f : α → Except EncodeFault β} {Q : α → Prop} {R : β → Prop}
    (hr : Yields appends r Q) (hf : ∀ a, Q a → Yields appends (f a) R) : Yields appends (r >>= f) R := by
  cases r with
  | error e => exact hr
  | ok a => exact hf a hr

theorem Yields.mono {r : Except EncodeFault α} {Q R : α → Prop} (hr : Yields appends r Q) (h : ∀ a, Q a → R a) :
    Yields appends r R := by
  cases r with
  | error e => exact hr
  | ok a => exact h a hr

theorem take_set_succ {l : List UInt8} {i : ℕ} (b : UInt8) (h : i < l.length) :
    (l.set i b).take (i + 1) = l.take i ++ [b] := by
  rw [List.take_set, List.take_add_one, List.getElem?_eq_getElem h, Option.toList_some,
    List.set_append_right _ _ (by rw [List.length_take]; omega), List.length_take, min_eq_left h.le, Nat.sub_self]
  rfl

namespace RawData
variable {e e' : RawData} {size : ℕ}

/-- Everything written so far. -/
def stream (e : RawData) : List UInt8 := e.strip ++ e.rawdata.take e.op

/-- The pointers are in order and the count belongs to `tif_rawcp`. -/
structure Fits (size : ℕ) (e : RawData) : Prop where
  size_eq : e.rawdatasize = size
  op_le : e.op ≤ size
  rawcp_le : e.rawcp ≤ e.op
  rawcc_eq : e.rawcc = e.rawcp

/-- `e'` is `e` after the bytes `data` were put at `op`. -/
structure Extends (e e' : RawData) (data : List UInt8) : Prop where
  size_eq : e'.rawdatasize = e.rawdatasize
  strip_eq : e'.strip = e.strip
  rawcp_eq : e'.rawcp = e.rawcp
  rawcc_eq : e'.rawcc = e.rawcc
  op_eq : e'.op = e.op + data.length
  contents : e'.rawdata.take e'.op = e.rawdata.take e.op ++ data

theorem put_ok (b : UInt8) (h : e.op < e.rawdatasize) :
    e.put b = .ok { e with rawdata := e.rawdata.set e.op b, op := e.op + 1 } := by
  rw [put, assign, if_pos h]
  rfl

variable (appends) in
theorem put_yields (b : UInt8) (h : e.op < e.rawdatasize) :
    Yields appends (e.put b) fun e' => Extends e e' [b] ∧ e'.lastliteral = e.lastliteral := by
  rw [put_ok b h]
  exact ⟨⟨List.length_set,rfl,rfl,rfl,rfl,take_set_succ b h⟩,rfl⟩

theorem Extends.trans {e₁ e₂ e₃ : RawData} {data data' : List UInt8} (h : Extends e₁ e₂ data)
    (h' : Extends e₂ e₃ data') : Extends e₁ e₃ (data ++ data') where
  size_eq := h'.size_eq.trans h.size_eq
  strip_eq := h'.strip_eq.trans h.strip_eq
  rawcp_eq := h'.rawcp_eq.trans h.rawcp_eq
  rawcc_eq := h'.rawcc_eq.trans h.rawcc_eq
  op_eq := by rw [h'.op_eq, h.op_eq, List.length_append, Nat.add_assoc]
  contents := by rw [h'.contents, h.contents, List.append_assoc]

theorem Extends.stream_eq {data : List UInt8} (h : Extends e e' data) : e'.stream = e.stream ++ data := by
  rw [stream, stream, h.strip_eq, h.contents, List.append_assoc]

theorem Extends.fits {data : List UInt8} (h : Extends e e' data) (hfits : e.Fits size)
    (hroom : e.op + data.length ≤ size) : e'.Fits size where
  size_eq := h.size_eq.trans hfits.size_eq
  op_le := h.op_eq.trans_le hroom
  rawcp_le := by
    rw [h.rawcp_eq, h.op_eq]
    exact hfits.rawcp_le.trans (Nat.le_add_right _ _)
  rawcc_eq := by rw [h.rawcc_eq, h.rawcp_eq, hfits.rawcc_eq]

variable (appends) in
theorem put_put_yields (b c : UInt8) (h : e.op + 2 ≤ e.rawdatasize) :
    Yields appends (e.put b >>= fun e => e.put c) fun e' =>
      Extends e e' [b,c] ∧ e'.lastliteral = e.lastliteral := by
  refine (put_yields appends b (by omega)).bind ?_
  rintro e₁ ⟨h₁,hl₁⟩
  have hroom : e₁.op < e₁.rawdatasize := by
    rw [h₁.size_eq, h₁.op_eq]
    exact h
  refine (put_yields appends c hroom).mono ?_
  rintro e₂ ⟨h₂,hl₂⟩
  exact ⟨h₁.trans h₂,hl₂.trans hl₁⟩

theorem fetch_ok {p : ℕ} {b : UInt8} (h : e.rawdata[p]? = some b) : e.fetch p = .ok b := by
  rw [fetch, h]

/-- A flush moves the counted bytes to the strip, and what the buffer holds stays in it. -/
theorem flushData1_yields (e : RawData) :
    Yields appends (flushData1 appends e) fun e' =>
      e'.strip = e.strip ++ e.rawdata.take e.rawcc ∧ e'.rawdata = e.rawdata ∧ e'.op = e.op ∧
        e'.lastliteral = e.lastliteral ∧ e'.rawcc = 0 ∧ (0 < e.rawcc ∧ e'.rawcp = 0 ∨ e.rawcc = 0 ∧ e'.rawcp = e.rawcp) := by
  unfold flushData1
  split
  · rename_i hpos
    dsimp only
    split
    · exact ⟨rfl,rfl,rfl,rfl,rfl,Or.inl ⟨hpos,rfl⟩⟩
    · rename_i hfailed
      exact ⟨rfl,_,_,Bool.eq_false_iff.mpr hfailed⟩
  · rename_i hzero
    have hrawcc : e.rawcc = 0 := by omega
    refine ⟨?_,rfl,rfl,rfl,hrawcc,Or.inr ⟨hrawcc,rfl⟩⟩
    rw [hrawcc, List.take_zero, List.append_nil]

/-- The copying loop moves `slop` bytes down, reading each of them before it is overwritten. -/
theorem copyLiteral_yields (slop : ℕ) (e : RawData) (hop : e.op ≤ e.lastliteral)
    (hend : e.lastliteral + slop ≤ e.rawdatasize) :
    Yields appends (copyLiteral slop e) fun e' => Extends e e' ((e.rawdata.drop e.lastliteral).take slop) := by
  induction slop generalizing e with
  | zero => exact ⟨rfl,rfl,rfl,rfl,rfl,by simp⟩
  | succ slop ih =>
    have hlast : e.lastliteral < e.rawdata.length := by
      unfold rawdatasize at hend
      omega
    have hroom : e.op < e.rawdatasize := by omega
    rw [copyLiteral, fetch_ok (List.getElem?_eq_getElem hlast)]
    change Yields appends (e.put e.rawdata[e.lastliteral] >>= _) _
    rw [put_ok _ hroom]
    have hone : Extends e { e with rawdata := e.rawdata.set e.op e.rawdata[e.lastliteral], op := e.op + 1 }
        [e.rawdata[e.lastliteral]] :=
      ⟨List.length_set,rfl,rfl,rfl,rfl,take_set_succ _ hroom⟩
    change Yields appends (copyLiteral slop { e with
      rawdata := e.rawdata.set e.op e.rawdata[e.lastliteral], op := e.op + 1, lastliteral := e.lastliteral + 1 }) _
    refine (ih _ (Nat.succ_le_succ hop) ?_).mono ?_
    · simp only [rawdatasize, List.length_set] at hend ⊢
      omega
    · intro e' h
      have hdrop : (e.rawdata.set e.op e.rawdata[e.lastliteral]).drop (e.lastliteral + 1) =
          e.rawdata.drop (e.lastliteral + 1) := List.drop_set_of_lt (by omega)
      rw [List.drop_eq_getElem_cons hlast, List.take_succ_cons]
      have htwo : Extends { e with rawdata := e.rawdata.set e.op e.rawdata[e.lastliteral], op := e.op + 1 } e'
          ((e.rawdata.drop (e.lastliteral + 1)).take slop) := by
        rw [← hdrop]
        exact ⟨h.size_eq,h.strip_eq,h.rawcp_eq,h.rawcc_eq,h.op_eq,h.contents⟩
      exact hone.trans htwo

theorem fetch_at {pre post : List UInt8} {x : UInt8} (h : e.rawdata.take e.op = pre ++ x :: post) :
    e.fetch pre.length = .ok x := by
  have hget : (e.rawdata.take e.op)[pre.length]? = some x := by
    rw [h, List.getElem?_append_right le_rfl, Nat.sub_self]
    rfl
  rw [List.getElem?_take] at hget
  split at hget
  · exact fetch_ok hget
  · cases hget

theorem assign_at {pre post : List UInt8} {x : UInt8} (y : UInt8) (h : e.rawdata.take e.op = pre ++ x :: post) :
    e.assign pre.length y = .ok { e with rawdata := e.rawdata.set pre.length y } ∧
      (e.rawdata.set pre.length y).take e.op = pre ++ y :: post := by
  have hlt : pre.length < e.rawdatasize := by
    have hlength := congrArg List.length h
    simp only [List.length_take, List.length_append, List.length_cons] at hlength
    unfold rawdatasize
    omega
  refine ⟨if_pos hlt,?_⟩
  rw [List.take_set, h, List.set_append_right _ _ le_rfl, Nat.sub_self, List.set_cons_zero]

end RawData

theorem toByte_natCast_toNat {k : ℕ} (h : k < 256) : (toByte k).toNat = k := by
  rw [toByte_toNat]
  exact FixedWidth.toUnsigned_of_lt h

theorem toByte_add_natCast {k : ℕ} (c : UInt8) (h : k + c.toNat < 256) : toByte k + c = toByte (k + c.toNat : ℕ) := by
  apply UInt8.toNat_inj.mp
  rw [toByte_natCast_toNat h, UInt8.toNat_add, toByte_natCast_toNat (by omega)]
  exact Nat.mod_eq_of_lt h

/-- The header byte of a pending literal is one less than the number of its bytes. -/
theorem literalHeader (bytes : List UInt8) (h : 0 < bytes.length) :
    toByte (bytes.length - 1 : ℤ) = toByte (bytes.length - 1 : ℕ) := by
  congr 1
  omega

/-- What was consumed is the expansion of whole packets. -/
def Settled (before : List UInt8) (e : RawData) (consumed : List UInt8) : Prop :=
  ∃ ps, e.stream = before ++ codes ps ∧ consumed = expansion ps

/-- A literal that can still grow stands at `lastliteral`, and `tail` follows it. -/
structure PendingLiteral (before : List UInt8) (e : RawData) (ps : List Packet) (bytes tail : List UInt8) : Prop where
  settled : e.strip ++ e.rawdata.take e.lastliteral = before ++ codes ps
  pending : e.rawdata.take e.op = e.rawdata.take e.lastliteral ++ toByte (bytes.length - 1) :: (bytes ++ tail)
  op_eq : e.op = e.lastliteral + (1 + bytes.length + tail.length)
  rawcp_le : e.rawcp ≤ e.lastliteral
  pos : 0 < bytes.length
  le : bytes.length ≤ 127

/-- What the stream is in each state of the encoder. -/
def Written (before : List UInt8) (e : RawData) (consumed : List UInt8) : EncodeState → Prop
  | .base => Settled before e consumed
  | .run => Settled before e consumed
  | .literal => ∃ ps bytes, PendingLiteral before e ps bytes [] ∧ consumed = expansion ps ++ bytes
  | .literalRun => ∃ ps bytes n b, 2 ≤ n ∧ n ≤ 128 ∧ PendingLiteral before e ps bytes [toByte (-((n : ℕ) - 1 : ℤ)),b] ∧
      consumed = expansion ps ++ bytes ++ List.replicate n b

section
variable {e : RawData} {size : ℕ} {before consumed : List UInt8}

theorem settled_append {e' : RawData} {data : List UInt8} (h : Settled before e consumed) (hext : e.Extends e' data)
    (p : Packet) (hp : p.code = data) : Settled before e' (consumed ++ p.expand) := by
  obtain ⟨ps,hstream,rfl⟩ := h
  refine ⟨ps ++ [p],?_,?_⟩
  · rw [hext.stream_eq, hstream, codes_append, codes_singleton, hp, List.append_assoc]
  · rw [expansion_append, expansion_singleton]

theorem PendingLiteral.stream_eq {ps : List Packet} {bytes tail : List UInt8} (h : PendingLiteral before e ps bytes tail) :
    e.stream = before ++ codes (ps ++ [.literal bytes h.pos (by have := h.le; omega)]) ++ tail := by
  rw [RawData.stream, h.pending, ← List.append_assoc, h.settled, codes_append, codes_singleton, Packet.code]
  simp

theorem PendingLiteral.settles {ps : List Packet} {bytes : List UInt8} (h : PendingLiteral before e ps bytes []) :
    Settled before e (expansion ps ++ bytes) := by
  refine ⟨_,h.stream_eq.trans (List.append_nil _),?_⟩
  rw [expansion_append, expansion_singleton]
  rfl

theorem settled_of_literalRun {ps : List Packet} {bytes : List UInt8} {n : ℕ} {b : UInt8} (htwo : 2 ≤ n) (hle : n ≤ 128)
    (h : PendingLiteral before e ps bytes [toByte (-((n : ℕ) - 1 : ℤ)),b]) :
    Settled before e (expansion ps ++ bytes ++ List.replicate n b) := by
  refine ⟨ps ++ [.literal bytes h.pos (by have := h.le; omega)] ++ [.run n b htwo hle],?_,?_⟩
  · rw [h.stream_eq, codes_append _ [.run n b htwo hle], codes_singleton, List.append_assoc]
    rfl
  · rw [expansion_append, expansion_append, expansion_singleton, expansion_singleton]
    rfl

/-- Whatever is pending, the stream is a list of packets. -/
theorem Written.settled {state : EncodeState} (h : Written before e consumed state) : Settled before e consumed := by
  cases state with
  | base => exact h
  | run => exact h
  | literal =>
    obtain ⟨ps,bytes,hpending,rfl⟩ := h
    exact hpending.settles
  | literalRun =>
    obtain ⟨ps,bytes,n,b,htwo,hle,hpending,rfl⟩ := h
    exact settled_of_literalRun htwo hle hpending

theorem flush_settled (hfits : e.Fits size) (h : Settled before e consumed) :
    Yields appends (do
      let e ← RawData.flushData1 appends { e with rawcc := e.rawcc + (e.op - e.rawcp) }
      return { e with op := e.rawcp }) fun e' => Settled before e' consumed ∧ e'.Fits size ∧ e'.op = 0 := by
  have hcount : e.rawcc + (e.op - e.rawcp) = e.op := by
    rw [hfits.rawcc_eq]
    have := hfits.rawcp_le
    omega
  rw [hcount]
  refine (RawData.flushData1_yields { e with rawcc := e.op }).bind ?_
  rintro e' ⟨hstrip,hrawdata,-,-,hrawcc,hrawcp⟩
  have hzero : e'.rawcp = 0 := by
    rcases hrawcp with ⟨-,h⟩ | ⟨hop,h⟩
    · exact h
    · have hle := hfits.rawcp_le
      simp only at hop h
      omega
  obtain ⟨ps,hstream,hconsumed⟩ := h
  refine ⟨⟨ps,?_,hconsumed⟩,⟨?_,?_,le_rfl,?_⟩,hzero⟩
  · simp only [RawData.stream, hzero, List.take_zero, List.append_nil]
    rw [hstrip]
    exact hstream
  · simp only [RawData.rawdatasize, hrawdata]
    exact hfits.size_eq
  · simp only [hzero]
    omega
  · simp only [hrawcc, hzero]

/-- A flush inside a literal leaves the literal, with what follows it, at the start of the buffer. -/
theorem flush_pending {ps : List Packet} {bytes tail : List UInt8} (hfits : e.Fits size)
    (h : PendingLiteral before e ps bytes tail) :
    Yields appends (do
      let slop := e.op - e.lastliteral
      let e ← RawData.flushData1 appends { e with rawcc := e.rawcc + (e.lastliteral - e.rawcp) }
      let e ← RawData.copyLiteral slop { e with op := e.rawcp }
      return { e with lastliteral := e.rawcp }) fun e' =>
        PendingLiteral before e' ps bytes tail ∧ e'.Fits size ∧ e'.op = 1 + bytes.length + tail.length := by
  have hcount : e.rawcc + (e.lastliteral - e.rawcp) = e.lastliteral := by
    rw [hfits.rawcc_eq]
    have := h.rawcp_le
    omega
  rw [hcount]
  have hop := h.op_eq
  have hle := hfits.op_le
  have hrawcp_le := h.rawcp_le
  refine (RawData.flushData1_yields { e with rawcc := e.lastliteral }).bind ?_
  rintro e₁ ⟨hstrip,hrawdata,-,hlast,hrawcc,hrawcp⟩
  have hzero : e₁.rawcp = 0 := by
    rcases hrawcp with ⟨-,h⟩ | ⟨hop,h⟩
    · exact h
    · simp only at hop h
      omega
  have hsize : e.rawdatasize = size := hfits.size_eq
  have hbound : e₁.lastliteral + (e.op - e.lastliteral) ≤ e₁.rawdatasize := by
    simp only [RawData.rawdatasize, hrawdata] at hsize ⊢
    rw [hlast]
    simp only
    omega
  refine (RawData.copyLiteral_yields (e.op - e.lastliteral) { e₁ with op := e₁.rawcp } (by simp [hzero]) hbound).bind ?_
  intro e₂ hext
  have hcopied : (e.rawdata.drop e.lastliteral).take (e.op - e.lastliteral) =
      toByte (bytes.length - 1) :: (bytes ++ tail) := by
    rw [← List.drop_take, h.pending, List.drop_append_of_le_length, List.drop_eq_nil_of_le, List.nil_append]
    · rw [List.length_take]
      omega
    · rw [List.length_take, ← RawData.rawdatasize]
      omega
  have hcontents : e₂.rawdata.take e₂.op = toByte (bytes.length - 1) :: (bytes ++ tail) := by
    rw [hext.contents, hzero, List.take_zero, List.nil_append, hlast, hrawdata]
    exact hcopied
  have hop₂ : e₂.op = 1 + bytes.length + tail.length := by
    rw [hext.op_eq]
    simp only [hlast, hrawdata, hcopied, hzero]
    simp
    omega
  have hrawcp₂ : e₂.rawcp = 0 := hext.rawcp_eq.trans hzero
  refine ⟨⟨?_,?_,?_,?_,h.pos,h.le⟩,⟨?_,?_,?_,?_⟩,hop₂⟩
  · simp only [hrawcp₂, List.take_zero, List.append_nil]
    rw [hext.strip_eq, hstrip]
    exact h.settled
  · simp only [hrawcp₂, List.take_zero, List.nil_append]
    exact hcontents
  · simp only [hrawcp₂, hop₂]
    omega
  · exact le_rfl
  · rw [← hsize]
    refine hext.size_eq.trans ?_
    simp only [RawData.rawdatasize, hrawdata]
  · simp only [hop₂]
    omega
  · simp only [hrawcp₂]
    omega
  · simp only [hrawcp₂, hext.rawcc_eq, hrawcc]

variable (appends) in
/-- After the space check, the states that write have room for two bytes. -/
theorem makeRoom_yields {state : EncodeState} (hsize : 130 ≤ size) (hfits : e.Fits size) (h : Written before e consumed state) :
    Yields appends (e.makeRoom appends state) fun e' =>
      Written before e' consumed state ∧ e'.Fits size ∧ (state ≠ .literalRun → e'.op + 2 ≤ size) := by
  unfold RawData.makeRoom
  rw [hfits.size_eq]
  split
  · cases state with
    | base =>
      refine (flush_settled hfits h).mono ?_
      rintro e' ⟨hsettled,hfits',hop⟩
      exact ⟨hsettled,hfits',fun _ => by omega⟩
    | run =>
      refine (flush_settled hfits h).mono ?_
      rintro e' ⟨hsettled,hfits',hop⟩
      exact ⟨hsettled,hfits',fun _ => by omega⟩
    | literal =>
      obtain ⟨ps,bytes,hpending,rfl⟩ := h
      refine (flush_pending hfits hpending).mono ?_
      rintro e' ⟨hpending',hfits',hop⟩
      have hle := hpending.le
      rw [List.length_nil] at hop
      exact ⟨⟨ps,bytes,hpending',rfl⟩,hfits',fun _ => by omega⟩
    | literalRun =>
      obtain ⟨ps,bytes,n,b,htwo,hle,hpending,rfl⟩ := h
      refine (flush_pending hfits hpending).mono ?_
      rintro e' ⟨hpending',hfits',-⟩
      exact ⟨⟨ps,bytes,n,b,htwo,hle,hpending',rfl⟩,hfits',fun hne => absurd rfl hne⟩
  · rename_i hroom
    exact ⟨h,hfits,fun _ => by omega⟩

/-- A turn over `n` times `b` consumed all of them, or leaves some for the next one. -/
def Turned (before : List UInt8) (size n : ℕ) (b : UInt8) (consumed : List UInt8) : Turn × RawData → Prop
  | (.again next n',e') => ∃ k, n = k + n' ∧ 0 < n' ∧ e'.Fits size ∧ Written before e' (consumed ++ List.replicate k b) next
  | (.done next,e') => e'.Fits size ∧ Written before e' (consumed ++ List.replicate n b) next

theorem emitRun_yields {next : EncodeState} {n : ℕ} {b : UInt8} (hfits : e.Fits size) (hroom : e.op + 2 ≤ size)
    (hn : 1 < n)
    (hwritten : ∀ m e', 2 ≤ m → m ≤ 128 → e.Extends e' [toByte (-((m : ℕ) - 1 : ℤ)),b] →
      e'.lastliteral = e.lastliteral → Written before e' (consumed ++ List.replicate m b) next) :
    Yields appends (emitRun next n b e) (Turned before size n b consumed) := by
  have hroom' : e.op + 2 ≤ e.rawdatasize := by
    rw [hfits.size_eq]
    exact hroom
  unfold emitRun
  split
  · rename_i hlong
    have hpair := RawData.put_put_yields appends (toByte (-127)) b hroom'
    rw [← bind_assoc]
    refine hpair.bind ?_
    rintro e' ⟨hext,hlast⟩
    exact ⟨128,by omega,by omega,hext.fits hfits hroom,hwritten 128 e' (by omega) le_rfl hext hlast⟩
  · have hpair := RawData.put_put_yields appends (toByte (-(n - 1 : ℤ))) b hroom'
    rw [← bind_assoc]
    refine hpair.bind ?_
    rintro e' ⟨hext,hlast⟩
    exact ⟨hext.fits hfits hroom,hwritten n e' hn (by omega) hext hlast⟩

theorem startLiteral_yields {b : UInt8} (hfits : e.Fits size) (hroom : e.op + 2 ≤ size) (h : Settled before e consumed) :
    Yields appends (startLiteral b e) (Turned before size 1 b consumed) := by
  have hroom' : e.op + 2 ≤ e.rawdatasize := by
    rw [hfits.size_eq]
    exact hroom
  have hpair := RawData.put_put_yields appends (e := { e with lastliteral := e.op }) 0 b hroom'
  rw [startLiteral, ← bind_assoc]
  refine hpair.bind ?_
  rintro e' ⟨hext,hlast⟩
  obtain ⟨ps,hstream,rfl⟩ := h
  have hlast' : e'.lastliteral = e.op := hlast
  have htake : e'.rawdata.take e.op = e.rawdata.take e.op := by
    have hkept := congrArg (List.take e.op) hext.contents
    have hlength : (e.rawdata.take e.op).length = e.op := by
      rw [List.length_take, ← RawData.rawdatasize, hfits.size_eq, min_eq_left hfits.op_le]
    rw [List.take_take, hext.op_eq, min_eq_left (Nat.le_add_right _ _)] at hkept
    rw [hkept]
    exact List.take_left' hlength
  refine ⟨⟨hext.size_eq.trans hfits.size_eq,?_,?_,?_⟩,ps,[b],⟨?_,?_,?_,?_,by simp,by simp⟩,rfl⟩
  · rw [hext.op_eq]
    exact hroom
  · rw [hext.rawcp_eq, hext.op_eq]
    exact hfits.rawcp_le.trans (Nat.le_add_right _ _)
  · rw [hext.rawcc_eq, hext.rawcp_eq]
    exact hfits.rawcc_eq
  · rw [hlast', htake, hext.strip_eq]
    exact hstream
  · rw [hlast', htake, hext.contents]
    rfl
  · rw [hlast', hext.op_eq]
    rfl
  · rw [hlast', hext.rawcp_eq]
    exact hfits.rawcp_le

/-- The prefix before the pending literal, whose length is the pointer to its header. -/
theorem PendingLiteral.length_before {ps : List Packet} {bytes tail : List UInt8} (hfits : e.Fits size)
    (h : PendingLiteral before e ps bytes tail) : (e.rawdata.take e.lastliteral).length = e.lastliteral := by
  have hop := h.op_eq
  have hle := hfits.op_le
  have hsize := hfits.size_eq
  rw [RawData.rawdatasize] at hsize
  rw [List.length_take]
  omega

/-- A literal that took more bytes is pending, or is complete with 128 bytes after its header. -/
theorem written_grown {ps : List Packet} {bytes : List UInt8} {count : UInt8}
    (hcount : count = toByte (bytes.length - 1 : ℤ))
    (hsettled : e.strip ++ e.rawdata.take e.lastliteral = before ++ codes ps)
    (hpending : e.rawdata.take e.op = e.rawdata.take e.lastliteral ++ count :: bytes)
    (hop : e.op = e.lastliteral + (1 + bytes.length)) (hrawcp : e.rawcp ≤ e.lastliteral)
    (hpos : 0 < bytes.length) (hle : bytes.length ≤ 128) :
    Written before e (expansion ps ++ bytes) (if count = 127 then .base else .literal) := by
  have hnat : count.toNat = bytes.length - 1 := by
    rw [hcount, literalHeader bytes hpos, toByte_natCast_toNat (by omega)]
  split
  · refine ⟨ps ++ [.literal bytes hpos hle],?_,?_⟩
    · rw [RawData.stream, hpending, ← List.append_assoc, hsettled, codes_append, codes_singleton, Packet.code,
        hcount, List.append_assoc]
    · rw [expansion_append, expansion_singleton]
      rfl
  · rename_i hopen
    have hshort : bytes.length ≤ 127 := by
      by_contra hcon
      refine hopen (UInt8.toNat_inj.mp ?_)
      rw [hnat]
      change bytes.length - 1 = 127
      omega
    refine ⟨ps,bytes,⟨hsettled,?_,?_,hrawcp,hpos,hshort⟩,rfl⟩
    · rw [hpending, hcount, List.append_nil]
    · rw [hop, List.length_nil, Nat.add_zero]

theorem extendLiteral_yields {b : UInt8} {ps : List Packet} {bytes : List UInt8} (hfits : e.Fits size)
    (hroom : e.op + 2 ≤ size) (h : PendingLiteral before e ps bytes []) :
    Yields appends (extendLiteral b e) (Turned before size 1 b (expansion ps ++ bytes)) := by
  have hbefore := h.length_before hfits
  have hpos := h.pos
  have hle := h.le
  have hcount : toByte (bytes.length - 1 : ℤ) + 1 = toByte ((bytes ++ [b]).length - 1 : ℤ) := by
    rw [literalHeader bytes hpos, toByte_add_natCast 1 (by rw [UInt8.toNat_one]; omega)]
    congr 1
    simp
    omega
  obtain ⟨hassign,hcontents⟩ := RawData.assign_at (toByte (bytes.length - 1) + 1) h.pending
  have hfetch := RawData.fetch_at h.pending
  rw [hbefore] at hassign hfetch hcontents
  rw [extendLiteral, hfetch]
  change Yields appends (e.assign e.lastliteral (toByte (bytes.length - 1) + 1) >>= _) _
  rw [hassign]
  generalize hdata : e.rawdata.set e.lastliteral (toByte (bytes.length - 1) + 1) = data at hcontents
  have hlength : data.length = size := by
    rw [← hdata, List.length_set]
    exact hfits.size_eq
  have hroom' : ({ e with rawdata := data } : RawData).op < ({ e with rawdata := data } : RawData).rawdatasize := by
    simp only [RawData.rawdatasize, hlength]
    omega
  have hput := RawData.put_yields appends (e := { e with rawdata := data }) b hroom'
  refine hput.bind ?_
  rintro e' ⟨hext,hlast⟩
  have hlast' : e'.lastliteral = e.lastliteral := hlast
  have htake : e'.rawdata.take e.lastliteral = e.rawdata.take e.lastliteral := by
    have hkept := congrArg (List.take e.lastliteral) hext.contents
    have hop := h.op_eq
    rw [List.take_take, hext.op_eq, min_eq_left (by simp only; omega)] at hkept
    rw [hkept]
    simp only [hcontents, List.append_assoc]
    exact List.take_left' hbefore
  have hconsumed : expansion ps ++ bytes ++ List.replicate 1 b = expansion ps ++ (bytes ++ [b]) :=
    List.append_assoc ..
  have hop := h.op_eq
  rw [List.length_nil] at hop
  refine ⟨hext.fits ⟨hlength,hfits.op_le,hfits.rawcp_le,hfits.rawcc_eq⟩ ?_,?_⟩
  · simp only [List.length_singleton]
    omega
  rw [hconsumed]
  refine written_grown hcount ?_ ?_ ?_ ?_ (by simp) ?_
  · rw [hlast', htake, hext.strip_eq]
    exact h.settled
  · rw [hext.contents, hlast', htake]
    simp only [hcontents]
    simp
  · rw [hext.op_eq, hlast', List.length_append]
    simp only [List.length_singleton]
    omega
  · rw [hext.rawcp_eq, hlast']
    exact h.rawcp_le
  · rw [List.length_append, List.length_singleton]
    omega

theorem toByte_neg_inj {n : ℕ} (htwo : 2 ≤ n) (hle : n ≤ 128) (h : toByte (-((n : ℕ) - 1 : ℤ)) = toByte (-1)) :
    n = 2 := by
  have hheader := congrArg (headerOf true) h
  rw [headerOf_toByte true (by omega) (by omega), headerOf_toByte true (by omega) (by omega)] at hheader
  omega

/-- The accesses that make a run of two part of the literal before it. -/
theorem merge_accesses {pre bytes : List UInt8} {count header c : UInt8} (count' : UInt8)
    (hcontents : e.rawdata.take e.op = pre ++ count :: (bytes ++ [header,c])) (hop : e.op = pre.length + (bytes.length + 3)) :
    ∃ data, (∀ (α : Type) (k : RawData → Except EncodeFault α), (do
        let e ← e.assign pre.length count'
        let replicated ← e.fetch (e.op - 1)
        let e ← e.assign (e.op - 2) replicated
        k e) = k { e with rawdata := data }) ∧
      data.length = e.rawdata.length ∧ data.take e.op = pre ++ count' :: (bytes ++ [c,c]) := by
  obtain ⟨hassign,hcounted⟩ := RawData.assign_at count' hcontents
  have hlength : (e.rawdata.set pre.length count').length = e.rawdata.length := List.length_set
  generalize e.rawdata.set pre.length count' = data at hassign hcounted hlength
  have hrun : ({ e with rawdata := data } : RawData).rawdata.take ({ e with rawdata := data } : RawData).op =
      (pre ++ count' :: bytes) ++ header :: [c] := by
    simp only [hcounted]
    simp
  have hheaderAt : (pre ++ count' :: bytes).length = e.op - 2 := by
    rw [List.length_append, List.length_cons]
    omega
  have hlastAt : (pre ++ count' :: bytes ++ [header]).length = e.op - 1 := by
    rw [List.length_append, hheaderAt, List.length_singleton]
    omega
  have hreplicated := RawData.fetch_at (e := { e with rawdata := data }) (hrun.trans (List.append_cons _ header [c]))
  rw [hlastAt] at hreplicated
  obtain ⟨hassign₁,hmerged⟩ := RawData.assign_at c hrun
  rw [hheaderAt] at hassign₁ hmerged
  refine ⟨data.set (e.op - 2) c,?_,by rw [List.length_set, hlength],?_⟩
  · intro α k
    rw [hassign]
    change (RawData.fetch { e with rawdata := data } (e.op - 1) >>= _) = _
    rw [hreplicated]
    change (RawData.assign { e with rawdata := data } (e.op - 2) c >>= k) = _
    rw [hassign₁]
    rfl
  · rw [hmerged]
    simp

/-- A literal that has taken up the run behind it. -/
theorem PendingLiteral.merged {ps : List Packet} {bytes data : List UInt8} {header c : UInt8} (hfits : e.Fits size)
    (h : PendingLiteral before e ps bytes [header,c]) (hshort : bytes.length ≤ 126)
    (hdata : data.take e.op = e.rawdata.take e.lastliteral ++ (toByte (bytes.length - 1) + 2) :: (bytes ++ [c,c])) :
    Written before { e with rawdata := data } (expansion ps ++ (bytes ++ [c,c]))
      (if toByte (bytes.length - 1) + 2 = 127 then .base else .literal) := by
  have hpos := h.pos
  have hop := h.op_eq
  simp only [List.length_cons, List.length_nil] at hop
  have hcount : toByte (bytes.length - 1 : ℤ) + 2 = toByte ((bytes ++ [c,c]).length - 1 : ℤ) := by
    have htoNat : (2 : UInt8).toNat = 2 := rfl
    rw [literalHeader bytes hpos, toByte_add_natCast 2 (by rw [htoNat]; omega), htoNat]
    congr 1
    simp
    omega
  have htake : data.take e.lastliteral = e.rawdata.take e.lastliteral := by
    have hkept := congrArg (List.take e.lastliteral) hdata
    rw [List.take_take, min_eq_left (by omega)] at hkept
    rw [hkept]
    exact List.take_left' (h.length_before hfits)
  refine written_grown hcount ?_ ?_ ?_ h.rawcp_le (by simp) ?_
  · simp only [htake]
    exact h.settled
  · simp only [hdata, htake]
  · simp only [List.length_append, List.length_cons, List.length_nil]
    omega
  · simp only [List.length_append, List.length_cons, List.length_nil]
    omega

/-- The case `LITERAL_RUN` writes nothing new: it settles the run, or makes it part of the literal. -/
theorem mergeRun_yields {n n' : ℕ} {b c : UInt8} {ps : List Packet} {bytes : List UInt8} (hn : 0 < n)
    (hfits : e.Fits size) (htwo : 2 ≤ n') (hle' : n' ≤ 128)
    (h : PendingLiteral before e ps bytes [toByte (-((n' : ℕ) - 1 : ℤ)),c]) :
    Yields appends (mergeRun n e) (Turned before size n b (expansion ps ++ bytes ++ List.replicate n' c)) := by
  have hbefore := h.length_before hfits
  have hop := h.op_eq
  simp only [List.length_cons, List.length_nil] at hop
  -- the header of the run stands two bytes before the end
  have hrun : e.rawdata.take e.op =
      (e.rawdata.take e.lastliteral ++ toByte (bytes.length - 1) :: bytes) ++
        toByte (-((n' : ℕ) - 1 : ℤ)) :: [c] := by
    rw [h.pending]
    simp
  have hheaderAt : (e.rawdata.take e.lastliteral ++ toByte (bytes.length - 1) :: bytes).length = e.op - 2 := by
    rw [List.length_append, hbefore, List.length_cons]
    omega
  have hfetch := RawData.fetch_at h.pending
  have hheader := RawData.fetch_at hrun
  rw [hbefore] at hfetch
  rw [hheaderAt] at hheader
  rw [mergeRun, hfetch]
  change Yields appends (e.fetch (e.op - 2) >>= _) _
  rw [hheader]
  change Yields appends (if _ then _ else _) _
  split
  · rename_i hmerge
    obtain ⟨rfl,hheader_eq,hcount⟩ := hmerge
    obtain rfl : n' = 2 := toByte_neg_inj htwo hle' hheader_eq
    rw [literalHeader bytes h.pos] at hcount
    have hshort : bytes.length - 1 < 126 := by
      have hle := h.le
      have := UInt8.lt_iff_toNat_lt.mp hcount
      rw [toByte_natCast_toNat (by omega)] at this
      exact this
    obtain ⟨data,haccesses,hlength,hdata⟩ := merge_accesses (toByte (bytes.length - 1) + 2) h.pending
      (by rw [hbefore]; omega)
    rw [hbefore] at haccesses
    rw [haccesses]
    have hconsumed : expansion ps ++ bytes ++ List.replicate 2 c ++ List.replicate 0 b = expansion ps ++ (bytes ++ [c,c]) := by
      simp [List.replicate]
    refine ⟨0,rfl,hn,⟨hlength.trans hfits.size_eq,hfits.op_le,hfits.rawcp_le,hfits.rawcc_eq⟩,?_⟩
    rw [hconsumed]
    exact h.merged hfits (by omega) hdata
  · refine ⟨0,(Nat.zero_add n).symm,hn,hfits,?_⟩
    rw [List.replicate_zero, List.append_nil]
    exact settled_of_literalRun htwo hle' h

variable (appends) in
theorem encodeTurn_yields {state : EncodeState} {n : ℕ} (b : UInt8) (hn : 0 < n) (hfits : e.Fits size)
    (h : Written before e consumed state) (hroom : state ≠ .literalRun → e.op + 2 ≤ size) :
    Yields appends (encodeTurn state n b e) (Turned before size n b consumed) := by
  have hrun (hs : Settled before e consumed) (hspace : e.op + 2 ≤ size) :
      Yields appends (if 1 < n then emitRun .run n b e else startLiteral b e) (Turned before size n b consumed) := by
    split
    · rename_i hlong
      refine emitRun_yields hfits hspace hlong ?_
      intro m e' htwo hle hext hlast
      have hsettled := settled_append hs hext (.run m b htwo hle) rfl
      exact hsettled
    · obtain rfl : n = 1 := by omega
      exact startLiteral_yields hfits hspace hs
  cases state with
  | base => exact hrun h (hroom (by decide))
  | run => exact hrun h (hroom (by decide))
  | literal =>
    obtain ⟨ps,bytes,hpending,rfl⟩ := h
    have hspace := hroom (by decide)
    rw [encodeTurn]
    split
    · rename_i hlong
      refine emitRun_yields hfits hspace hlong ?_
      intro m e' htwo hle hext hlast
      have htake : e'.rawdata.take e.lastliteral = e.rawdata.take e.lastliteral := by
        have hkept := congrArg (List.take e.lastliteral) hext.contents
        have hop := hpending.op_eq
        rw [List.take_take, hext.op_eq, min_eq_left (by omega), hpending.pending, List.append_assoc] at hkept
        rw [hkept]
        exact List.take_left' (hpending.length_before hfits)
      refine ⟨ps,bytes,m,b,htwo,hle,⟨?_,?_,?_,?_,hpending.pos,hpending.le⟩,rfl⟩
      · rw [hlast, htake, hext.strip_eq]
        exact hpending.settled
      · rw [hext.contents, hlast, htake, hpending.pending]
        simp
      · rw [hext.op_eq, hlast, hpending.op_eq, List.length_nil, Nat.add_zero, Nat.add_assoc]
      · rw [hext.rawcp_eq, hlast]
        exact hpending.rawcp_le
    · obtain rfl : n = 1 := by omega
      exact extendLiteral_yields hfits hspace hpending
  | literalRun =>
    obtain ⟨ps,bytes,n',c,htwo,hle,hpending,rfl⟩ := h
    exact mergeRun_yields hn hfits htwo hle hpending

variable (appends) in
/-- The `switch` is left with all `n` bytes consumed. The induction is on what each `goto` makes smaller. -/
theorem encodeObject_yields (b : UInt8) (state : EncodeState) {n : ℕ} (hsize : 130 ≤ size) (hn : 0 < n)
    (hfits : e.Fits size) (h : Written before e consumed state) :
    Yields appends (encodeObject appends b state n e) fun r =>
      r.2.Fits size ∧ Written before r.2 (consumed ++ List.replicate n b) r.1 := by
  induction hm : state.measure n using Nat.strong_induction_on generalizing state n e consumed with
  | _ measure ih =>
    subst hm
    have hmake := makeRoom_yields appends hsize hfits h
    rw [encodeObject]
    split
    · rename_i hroom
      rw [hroom] at hmake
      exact hmake
    · rename_i e₁ hroom
      rw [hroom] at hmake
      obtain ⟨hwritten₁,hfits₁,hspace⟩ := hmake
      have hturn := encodeTurn_yields appends b hn hfits₁ hwritten₁ hspace
      split
      · rename_i hfault
        rw [hfault] at hturn
        exact hturn
      · rename_i hdone
        rw [hdone] at hturn
        exact hturn
      · rename_i next n' e₂ hagain
        rw [hagain] at hturn
        obtain ⟨k,rfl,hn',hfits₂,hwritten₂⟩ := hturn
        have hsplit : consumed ++ List.replicate (k + n') b = consumed ++ List.replicate k b ++ List.replicate n' b := by
          rw [List.append_assoc, List.replicate_append_replicate]
        rw [hsplit]
        exact ih _ (encodeTurn_again hagain) next hn' hfits₂ hwritten₂ rfl

/-- The longest string of bytes equal to the first one, and what follows it. -/
theorem replicate_append_dropWhile (b : UInt8) (bp : List UInt8) :
    List.replicate (1 + (bp.takeWhile (b == ·)).length) b ++ bp.dropWhile (b == ·) = b :: bp := by
  have hall : bp.takeWhile (b == ·) = List.replicate (bp.takeWhile (b == ·)).length b := by
    refine List.eq_replicate_iff.mpr ⟨rfl,?_⟩
    intro c hc
    have hequal := List.mem_takeWhile_imp hc
    exact (beq_iff_eq.mp hequal).symm
  rw [Nat.add_comm, List.replicate_succ, ← hall, List.cons_append, List.takeWhile_append_dropWhile]

variable (appends) in
theorem encodeLoop_yields (hsize : 130 ≤ size) (buf : List UInt8) (state : EncodeState) (hfits : e.Fits size)
    (h : Written before e consumed state) :
    Yields appends (encodeLoop appends state buf e) fun e' => e'.Fits size ∧ Settled before e' (consumed ++ buf) := by
  induction hlength : buf.length using Nat.strong_induction_on generalizing buf state e consumed with
  | _ length ih =>
    subst hlength
    cases buf with
    | nil =>
      rw [encodeLoop, List.append_nil]
      exact ⟨hfits,h.settled⟩
    | cons b bp =>
      have hobject := encodeObject_yields appends b state hsize
        (Nat.add_pos_left Nat.one_pos (bp.takeWhile (b == ·)).length) hfits h
      rw [encodeLoop]
      split
      · rename_i hfault
        rw [hfault] at hobject
        exact hobject
      · rename_i next e₁ hdone
        rw [hdone] at hobject
        obtain ⟨hfits₁,hwritten₁⟩ := hobject
        rw [← replicate_append_dropWhile b bp, ← List.append_assoc]
        refine ih _ ?_ _ next hfits₁ hwritten₁ rfl
        have := List.length_dropWhile_le (b == ·) bp
        simp only [List.length_cons]
        omega

/-- The buffer between two calls of the encoder. -/
structure Idle (size : ℕ) (e : RawData) : Prop where
  size_eq : e.rawdatasize = size
  rawcp_le : e.rawcp ≤ size
  rawcc_eq : e.rawcc = e.rawcp

/-- The bytes of the strip and those that are still to leave the buffer. -/
def RawData.data (e : RawData) : List UInt8 := e.strip ++ e.rawdata.take e.rawcc

variable (appends) in
/-- One call adds packets that expand to its input, and to nothing else. -/
theorem packBitsEncode_yields (hsize : 130 ≤ size) (buf : List UInt8) (hidle : Idle size e) :
    Yields appends (packBitsEncode appends buf e) fun e' =>
      Idle size e' ∧ ∃ ps, e'.data = e.data ++ codes ps ∧ buf = expansion ps := by
  have hstart : Written e.data { e with op := e.rawcp, lastliteral := 0 } [] .base := by
    refine ⟨[],?_,rfl⟩
    rw [RawData.data, hidle.rawcc_eq]
    exact (List.append_nil _).symm
  have hfits : RawData.Fits size { e with op := e.rawcp, lastliteral := 0 } :=
    ⟨hidle.size_eq,hidle.rawcp_le,le_rfl,hidle.rawcc_eq⟩
  have hloop := encodeLoop_yields appends hsize buf .base hfits hstart
  unfold packBitsEncode
  split
  · rename_i hfault
    rw [hfault] at hloop
    exact hloop
  · rename_i e' hdone
    rw [hdone] at hloop
    obtain ⟨hfits,ps,hstream,hconsumed⟩ := hloop
    have hcount : e'.rawcc + (e'.op - e'.rawcp) = e'.op := by
      rw [hfits.rawcc_eq]
      have := hfits.rawcp_le
      omega
    refine ⟨⟨hfits.size_eq,hfits.op_le,hcount⟩,ps,?_,hconsumed⟩
    rw [RawData.data, hcount]
    exact hstream

end

end TiffJni.Codec
