import TiffJni.Codec.PackBitsEncoding

/-! # Strips survive PackBits

A strip that was encoded in pieces of one row decodes to itself, at once or row by row,
because no packet of one row holds bytes of the next. The encoder stays inside its buffer.
-/
namespace TiffJni.Codec
variable {appends : List UInt8 → List UInt8 → Bool}

/-- The pieces of `rowsize` bytes, with a shorter one at the end if they do not come out even. -/
def rowsOf (rowsize : ℕ) (buf : List UInt8) : List (List UInt8) :=
  (List.range ((buf.length + rowsize - 1) / rowsize)).map fun y => (buf.drop (y * rowsize)).take rowsize

theorem rowsOf_nil {rowsize : ℕ} (hrow : 0 < rowsize) : rowsOf rowsize [] = [] := by
  rw [rowsOf, List.length_nil, Nat.zero_add, Nat.div_eq_of_lt (by omega)]
  rfl

theorem rowsOf_cons {rowsize : ℕ} (hrow : 0 < rowsize) {buf : List UInt8} (hbuf : buf ≠ []) :
    rowsOf rowsize buf = buf.take rowsize :: rowsOf rowsize (buf.drop rowsize) := by
  have hpos := List.length_pos_iff.mpr hbuf
  have hcount : (buf.length + rowsize - 1) / rowsize = ((buf.drop rowsize).length + rowsize - 1) / rowsize + 1 := by
    rw [List.length_drop]
    by_cases hlong : rowsize ≤ buf.length
    · have hsub : buf.length + rowsize - 1 = (buf.length - rowsize + rowsize - 1) + rowsize := by omega
      rw [hsub, Nat.add_div_right _ hrow]
    · have hzero : buf.length - rowsize = 0 := by omega
      have hone : buf.length + rowsize - 1 = (buf.length - 1) + rowsize := by omega
      rw [hzero, hone, Nat.add_div_right _ hrow, Nat.div_eq_of_lt (by omega), Nat.div_eq_of_lt (by omega)]
  rw [rowsOf, hcount, List.range_succ_eq_map, List.map_cons, List.map_map, Nat.zero_mul, List.drop_zero, rowsOf]
  congr 1
  apply List.map_congr_left
  intro y _
  rw [Function.comp_apply, List.drop_drop, Nat.succ_mul, Nat.add_comm]

theorem rowsOf_flatten {rowsize : ℕ} (hrow : 0 < rowsize) (buf : List UInt8) : (rowsOf rowsize buf).flatten = buf := by
  induction hlength : buf.length using Nat.strong_induction_on generalizing buf with
  | _ length ih =>
    subst hlength
    by_cases hbuf : buf = []
    · rw [hbuf, rowsOf_nil hrow, List.flatten_nil]
    · have hpos := List.length_pos_iff.mpr hbuf
      rw [rowsOf_cons hrow hbuf, List.flatten_cons,
        ih _ (by rw [List.length_drop]; omega) (buf.drop rowsize) rfl, List.take_append_drop]

variable (appends) in
/-- Row by row, the packets of each row expand to that row. -/
theorem packBitsEncodeChunk_yields {size rowsize : ℕ} (hsize : 130 ≤ size) (hrow : 0 < rowsize) (buf : List UInt8)
    {e : RawData} (hidle : Idle size e) :
    Yields appends (packBitsEncodeChunk appends rowsize buf e) fun e' =>
      Idle size e' ∧ ∃ rows : List (List Packet), e'.data = e.data ++ codes rows.flatten ∧
        rows.map expansion = rowsOf rowsize buf := by
  induction hlength : buf.length using Nat.strong_induction_on generalizing buf e with
  | _ length ih =>
    subst hlength
    cases buf with
    | nil =>
      rw [packBitsEncodeChunk]
      refine ⟨hidle,[],?_,?_⟩
      · exact (List.append_nil _).symm
      · rw [rowsOf_nil hrow, List.map_nil]
    | cons b bp =>
      have hencode := packBitsEncode_yields appends hsize ((b :: bp).take rowsize) hidle
      rw [packBitsEncodeChunk, dif_neg hrow.ne']
      split
      · rename_i hfault
        rw [hfault] at hencode
        exact hencode
      · rename_i e₁ hdone
        rw [hdone] at hencode
        obtain ⟨hidle₁,ps,hdata,hexpansion⟩ := hencode
        refine (ih _ ?_ ((b :: bp).drop rowsize) hidle₁ rfl).mono ?_
        · simp only [List.length_drop, List.length_cons]
          omega
        · rintro e₂ ⟨hidle₂,rows,hdata₂,hrows⟩
          refine ⟨hidle₂,ps :: rows,?_,?_⟩
          · rw [hdata₂, hdata, List.flatten_cons, codes_append, List.append_assoc]
          · rw [List.map_cons, hrows, ← hexpansion, ← rowsOf_cons hrow (List.cons_ne_nil b bp)]

/-- A raw data buffer as a strip finds it, of any previous content. -/
def RawData.start (rawdata : List UInt8) : RawData := ⟨[],rawdata,0,0,0,0⟩

theorem RawData.start_idle (rawdata : List UInt8) : Idle rawdata.length (start rawdata) := ⟨rfl,Nat.zero_le _,rfl⟩

theorem expansion_flatten (rows : List (List Packet)) : expansion rows.flatten = (rows.map expansion).flatten := by
  induction rows with
  | nil => rfl
  | cons row rows ih => rw [List.flatten_cons, expansion_append, ih, List.map_cons, List.flatten_cons]

theorem codes_flatten_cons (row : List Packet) (rows : List (List Packet)) :
    codes (row :: rows).flatten = codes row ++ codes rows.flatten := by
  rw [List.flatten_cons, codes_append]

/-- Rows of packets that expand to a scanline each are read back a scanline at a time. -/
theorem packBitsDecodeRows_codes (charSigned : Bool) (scanlinesize : ℕ) (rows : List (List Packet)) (behind : List UInt8)
    (hrows : ∀ row ∈ rows, (expansion row).length = scanlinesize) :
    packBitsDecodeRows charSigned scanlinesize rows.length (codes rows.flatten ++ behind) (codes rows.flatten).length =
      some (rows.map expansion) := by
  induction rows with
  | nil => rfl
  | cons row rows ih =>
    have hrow := hrows row (List.mem_cons_self ..)
    have hdecode := packBitsDecode_codes charSigned row (codes rows.flatten ++ behind) (codes rows.flatten).length
    rw [List.length_cons, packBitsDecodeRows, codes_flatten_cons, List.append_assoc, List.length_append, ← hrow]
    push_cast at hdecode ⊢
    have hrest := ih fun row' hrow' => hrows row' (List.mem_cons_of_mem _ hrow')
    rw [← hrow] at hrest
    simp only [hdecode, hrest, Option.bind_eq_bind, Option.bind_some, if_true, List.map_cons]
    rfl

/-- What a strip became when the encoder is done with it. -/
structure Encoded (rowsize : ℕ) (buf data : List UInt8) : Prop where
  whole : ∀ (charSigned : Bool) (behind : List UInt8),
    packBitsDecode charSigned (data ++ behind) data.length buf.length = some ⟨buf,behind,0,0⟩
  rows : ∀ (charSigned : Bool) (behind : List UInt8) (count : ℕ), buf.length = count * rowsize →
    packBitsDecodeRows charSigned rowsize count (data ++ behind) data.length =
      some ((List.range count).map fun y => (buf.drop (y * rowsize)).take rowsize)

theorem encoded_of_rows {rowsize : ℕ} (hrow : 0 < rowsize) {buf data : List UInt8} {rows : List (List Packet)}
    (hdata : data = codes rows.flatten) (hrows : rows.map expansion = rowsOf rowsize buf) :
    Encoded rowsize buf data where
  whole charSigned behind := by
    have hbuf : buf = expansion rows.flatten := by rw [expansion_flatten, hrows, rowsOf_flatten hrow]
    have hdecode := packBitsDecode_codes charSigned rows.flatten behind 0
    rw [hdata, hbuf]
    simpa using hdecode
  rows charSigned behind count hcount := by
    have hceil : (buf.length + rowsize - 1) / rowsize = count := by
      rw [hcount, Nat.add_sub_assoc hrow, Nat.mul_comm, Nat.mul_add_div hrow, Nat.div_eq_of_lt (by omega), Nat.add_zero]
    have hlength : rows.length = count := by
      rw [← List.length_map (f := expansion), hrows, rowsOf, List.length_map, List.length_range, hceil]
    have hfull : ∀ row ∈ rows, (expansion row).length = rowsize := by
      intro row hmem
      have hmem' := List.mem_map_of_mem (f := expansion) hmem
      rw [hrows, rowsOf, hceil, List.mem_map] at hmem'
      obtain ⟨y,hy,hrow'⟩ := hmem'
      have hlt := List.mem_range.mp hy
      have hend : y * rowsize + rowsize ≤ buf.length := by
        rw [hcount, ← Nat.succ_mul]
        exact Nat.mul_le_mul_right rowsize hlt
      rw [← hrow', List.length_take, List.length_drop]
      omega
    have hdecode := packBitsDecodeRows_codes charSigned rowsize rows behind hfull
    rw [hlength, hrows, rowsOf, hceil] at hdecode
    rw [hdata]
    exact hdecode

/-- Encoding a strip of any bytes stays inside a buffer of 130 bytes or more and stops only when
a flush fails; what it wrote decodes to the strip, as a whole and scanline by scanline, whatever
bytes stand behind it and whether or not `char` is signed. -/
theorem packBits_roundTrip (rowsize : ℕ) (hrow : 0 < rowsize) (buf rawdata : List UInt8)
    (hsize : 130 ≤ rawdata.length) :
    match packBitsEncodeChunk appends rowsize buf (RawData.start rawdata) with
    | .ok e => Encoded rowsize buf e.data
    | .error f => f = .flushFailed ∧ ∃ strip data, appends strip data = false := by
  have hencode := packBitsEncodeChunk_yields appends hsize hrow buf (RawData.start_idle rawdata)
  split
  · rename_i e hdone
    rw [hdone] at hencode
    obtain ⟨-,rows,hdata,hrows⟩ := hencode
    exact encoded_of_rows hrow hdata hrows
  · rename_i f hfault
    rw [hfault] at hencode
    exact hencode

/-- A run, and bytes of which no two neighbours are equal. -/
def runThenLiteral : List UInt8 := [7,7] ++ (List.range 129).map UInt8.ofNat

/-- Each row fills the buffer while a literal is open, which is carried over the flush. -/
theorem packBits_roundTrip_twoRows :
    match packBitsEncodeChunk (fun _ _ => true) 131 (runThenLiteral ++ runThenLiteral)
      (RawData.start (List.replicate 130 0)) with
    | .ok e => Encoded 131 (runThenLiteral ++ runThenLiteral) e.data
    | .error f => f = .flushFailed ∧ ∃ strip data, (fun _ _ : List UInt8 => true) strip data = false :=
  packBits_roundTrip 131 (by decide) (runThenLiteral ++ runThenLiteral) (List.replicate 130 0)
    (by rw [List.length_replicate])

end TiffJni.Codec
