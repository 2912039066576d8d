import Mathlib.Tactic.Ring

/-! # Java input streams as the native code sees them

An input stream is a private state and the five methods the adaptor calls. Since
the state and the methods are arbitrary, every sequence of answers some Java
stream can give is the behaviour of one of these. The contract of
`java.io.InputStream` is stated against a position in the content still to be
delivered, and `ByteArrayInputStream` is its exact in-memory instance.
-/
namespace TiffJni.Jni

/-- A `byte[]`: its length is a Java `int`. -/
structure JByteArray where
  data : List UInt8
  bounded : data.length < 2 ^ 31
  deriving DecidableEq

def JByteArray.oneByte : JByteArray := ⟨[0],by decide⟩

def JByteArray.store (b : JByteArray) (written : List UInt8) : JByteArray where
  data := written.take b.data.length ++ b.data.drop written.length
  bounded := by
    have h := b.bounded
    simp only [List.length_append, List.length_take, List.length_drop]
    omega

@[simp] theorem JByteArray.length_store (b : JByteArray) (written : List UInt8) :
    (b.store written).data.length = b.data.length := by
  simp only [store, List.length_append, List.length_take, List.length_drop]
  omega

theorem JByteArray.take_store (b : JByteArray) {written : List UInt8} {n : ℕ}
    (hw : n ≤ written.length) (hb : n ≤ b.data.length) :
    (b.store written).data.take n = written.take n := by
  rw [store, List.take_append_of_le_length (by rw [List.length_take]; omega), List.take_take,
    Nat.min_eq_left hb]

/-- What a Java call brings back: the result register, whose value is
unspecified when the method threw, and whether it threw. -/
structure JavaResult where
  value : ℤ
  threw : Bool

/-- The methods of `java.io.InputStream` the adaptor looks up by name. `read`
also yields the bytes it stored in its array argument, from index zero on. -/
structure InputStream (σ : Type*) where
  available : σ → JavaResult × σ
  read : σ → JByteArray → ℤ → JavaResult × List UInt8 × σ
  skip : σ → ℤ → JavaResult × σ
  reset : σ → Bool × σ
  mark : σ → ℤ → Bool × σ

variable {σ : Type*}

/-- The part of the contract a sequence of reads relies on: reads deliver the
content in order, at least one byte when asked for one, and `-1` at the end only. -/
structure ReadContract (S : InputStream σ) (c : List UInt8) where
  pos : σ → ℕ
  pos_le : ∀ s, pos s ≤ c.length
  available_quiet : ∀ s, (S.available s).1.threw = false
  available_pos : ∀ s, pos (S.available s).2 = pos s
  read_quiet : ∀ s b len, (S.read s b len).1.threw = false
  read_spec : ∀ s b len, 0 ≤ len → len ≤ b.data.length →
    ((S.read s b len).1.value = -1 ∧ pos (S.read s b len).2.2 = pos s ∧
      (len = 0 ∨ pos s = c.length)) ∨
    ∃ k : ℕ, (S.read s b len).1.value = k ∧ k ≤ len ∧ (0 < len → 0 < k) ∧
      pos s + k ≤ c.length ∧ pos (S.read s b len).2.2 = pos s + k ∧
      (S.read s b len).2.1.take k = (c.drop (pos s)).take k

/-- The `java.io.InputStream` contract over the content `c`, for streams whose
`available`, `read` and `skip` do not throw. `available` may underestimate,
`skip` may fall short, and `reset` may throw; when it does not, it goes back to
the position of the last `mark`. -/
structure StreamContract (S : InputStream σ) (c : List UInt8) extends ReadContract S c where
  markPos : σ → ℕ
  available_nonneg : ∀ s, 0 ≤ (S.available s).1.value
  available_le : ∀ s, (S.available s).1.value ≤ (c.length - pos s : ℕ)
  available_int : ∀ s, (S.available s).1.value < 2 ^ 31
  available_mark : ∀ s, markPos (S.available s).2 = markPos s
  read_mark : ∀ s b len, markPos (S.read s b len).2.2 = markPos s
  skip_quiet : ∀ s n, (S.skip s n).1.threw = false
  skip_mark : ∀ s n, markPos (S.skip s n).2 = markPos s
  skip_spec : ∀ s n, 0 ≤ n → ∃ k : ℕ, (S.skip s n).1.value = k ∧ k ≤ n ∧ pos (S.skip s n).2 = pos s + k
  reset_mark : ∀ s, markPos (S.reset s).2 = markPos s
  reset_pos : ∀ s, (S.reset s).1 = false → pos (S.reset s).2 = markPos s
  mark_quiet : ∀ s n, (S.mark s n).1 = false
  mark_pos : ∀ s n, pos (S.mark s n).2 = pos s
  mark_mark : ∀ s n, markPos (S.mark s n).2 = pos s

/-- A stream that behaves as `ByteArrayInputStream` does: `available` is what is left, `skip` moves over as much of it as it
is asked to, `reset` goes back to the mark, and nothing else goes back. Reads may still come in pieces. -/
structure ExactContract (S : InputStream σ) (c : List UInt8) extends StreamContract S c where
  available_exact : ∀ s, (S.available s).1.value = (c.length - pos s : ℕ)
  skip_exact : ∀ s (n : ℕ), pos (S.skip s n).2 = min (pos s + n) c.length
  reset_quiet : ∀ s, (S.reset s).1 = false
  read_forward : ∀ s b len, pos s ≤ pos (S.read s b len).2.2
  skip_forward : ∀ s n, pos s ≤ pos (S.skip s n).2

theorem ExactContract.reset_start {S : InputStream σ} {c : List UInt8} (K : ExactContract S c) (s : σ) :
    K.pos (S.reset s).2 = K.markPos s := K.reset_pos s (K.reset_quiet s)

theorem ExactContract.rest_lt {S : InputStream σ} {c : List UInt8} (K : ExactContract S c) (s : σ) :
    c.length - K.pos s < 2 ^ 31 := by
  have hint := K.available_int s
  have hexact := K.available_exact s
  omega

/-- What a stream of `length` bytes promises of a mark, whatever its methods answer or throw:
`reset` goes back to it while at most `readLimit` bytes lie between the mark and the position. -/
structure MarkContract (S : InputStream σ) (length : ℕ) where
  pos : σ → ℕ
  markPos : σ → ℕ
  readLimit : σ → ℤ
  pos_le : ∀ s, pos s ≤ length
  available_pos : ∀ s, pos (S.available s).2 = pos s
  available_kept : ∀ s, markPos (S.available s).2 = markPos s ∧ readLimit (S.available s).2 = readLimit s
  read_kept : ∀ s b len, markPos (S.read s b len).2.2 = markPos s ∧ readLimit (S.read s b len).2.2 = readLimit s
  skip_kept : ∀ s n, markPos (S.skip s n).2 = markPos s ∧ readLimit (S.skip s n).2 = readLimit s
  reset_kept : ∀ s, markPos (S.reset s).2 = markPos s ∧ readLimit (S.reset s).2 = readLimit s
  mark_set : ∀ s n, markPos (S.mark s n).2 = pos s ∧ readLimit (S.mark s n).2 = n
  reset_pos : ∀ s, 0 ≤ readLimit s → (pos s : ℤ) - markPos s ≤ readLimit s →
    (S.reset s).1 = false ∧ pos (S.reset s).2 = markPos s

/-- A negative limit promises nothing. -/
def MarkContract.Valid {S : InputStream σ} {length : ℕ} (K : MarkContract S length) (s : σ) : Prop :=
  0 ≤ K.readLimit s ∧ (K.pos s : ℤ) - K.markPos s ≤ K.readLimit s

structure ByteArrayState (c : List UInt8) where
  pos : ℕ
  mark : ℕ
  pos_le : pos ≤ c.length
  mark_le : mark ≤ c.length
  deriving DecidableEq

def ByteArrayState.new (c : List UInt8) : ByteArrayState c := ⟨0,0,Nat.zero_le _,Nat.zero_le _⟩

/-- The bytes `skip` or `read` moves over when asked for `n` of them. -/
def ByteArrayState.advance {c : List UInt8} (s : ByteArrayState c) (n : ℤ) : ℕ :=
  min n.toNat (c.length - s.pos)

def ByteArrayState.moveBy {c : List UInt8} (s : ByteArrayState c) (n : ℤ) : ByteArrayState c where
  pos := s.pos + s.advance n
  mark := s.mark
  pos_le := by
    have h := s.pos_le
    simp only [advance]
    omega
  mark_le := s.mark_le

/-- `java.io.ByteArrayInputStream` over `c`; its `mark` ignores the read limit. -/
def byteArrayInputStream (c : List UInt8) : InputStream (ByteArrayState c) where
  available s := (⟨(c.length - s.pos : ℕ),false⟩,s)
  read s _ len :=
    if c.length ≤ s.pos then (⟨-1,false⟩,[],s)
    else (⟨s.advance len,false⟩,(c.drop s.pos).take (s.advance len),s.moveBy len)
  skip s n := (⟨s.advance n,false⟩,s.moveBy n)
  reset s := (false,⟨s.mark,s.mark,s.mark_le,s.mark_le⟩)
  mark s _ := (false,⟨s.pos,s.pos,s.pos_le,s.pos_le⟩)

/-- In-memory streams honour the contract; their content must fit the `int` of `available`. -/
def byteArrayContract (c : List UInt8) (hc : c.length < 2 ^ 31) : StreamContract (byteArrayInputStream c) c where
  pos s := s.pos
  pos_le s := s.pos_le
  markPos s := s.mark
  available_quiet _ := rfl
  available_pos _ := rfl
  available_nonneg _ := Int.natCast_nonneg _
  available_le _ := Int.le_refl _
  available_int s := by
    dsimp only [byteArrayInputStream]
    omega
  available_mark _ := rfl
  read_quiet s b len := by
    simp only [byteArrayInputStream]
    split <;> rfl
  read_mark s b len := by
    simp only [byteArrayInputStream]
    split <;> rfl
  read_spec s b len hlen hb := by
    have hs := s.pos_le
    by_cases hend : c.length ≤ s.pos
    · left
      simp only [byteArrayInputStream, if_pos hend]
      exact ⟨trivial,trivial,Or.inr (by omega)⟩
    · right
      refine ⟨s.advance len,?_⟩
      simp only [byteArrayInputStream, if_neg hend]
      refine ⟨trivial,?_,?_,?_,rfl,?_⟩
      · simp only [ByteArrayState.advance]
        omega
      · simp only [ByteArrayState.advance]
        omega
      · simp only [ByteArrayState.advance]
        omega
      · rw [List.take_take, Nat.min_self]
  skip_quiet _ _ := rfl
  skip_mark _ _ := rfl
  skip_spec s n hn := by
    refine ⟨s.advance n,rfl,?_,rfl⟩
    simp only [ByteArrayState.advance]
    omega
  reset_mark _ := rfl
  reset_pos _ _ := rfl
  mark_quiet _ _ := rfl
  mark_pos _ _ := rfl
  mark_mark _ _ := rfl

def byteArrayExact (c : List UInt8) (hc : c.length < 2 ^ 31) : ExactContract (byteArrayInputStream c) c :=
  { byteArrayContract c hc with
    available_exact := fun _ => rfl
    skip_exact := by
      intro s n
      have hs := s.pos_le
      change s.pos + min (n : ℤ).toNat (c.length - s.pos) = min (s.pos + n) c.length
      omega
    reset_quiet := fun _ => rfl
    read_forward := by
      intro s b len
      dsimp only [byteArrayInputStream, byteArrayContract]
      split
      · exact Nat.le_refl _
      · exact Nat.le_add_right _ _
    skip_forward := fun _ _ => Nat.le_add_right _ _ }

/-- An in-memory stream without mark support: `reset` throws and stays where it is. -/
def unmarkableInputStream (c : List UInt8) : InputStream (ByteArrayState c) :=
  { byteArrayInputStream c with reset := fun s => (true,s) }

def unmarkableContract (c : List UInt8) (hc : c.length < 2 ^ 31) : StreamContract (unmarkableInputStream c) c :=
  { byteArrayContract c hc with
    reset_mark := fun _ => rfl
    reset_pos := fun _ h => by cases h }

/-- An in-memory stream that knows nothing about what can be read without blocking. -/
def unhurriedInputStream (c : List UInt8) : InputStream (ByteArrayState c) :=
  { byteArrayInputStream c with available := fun s => (⟨0,false⟩,s) }

def unhurriedContract (c : List UInt8) (hc : c.length < 2 ^ 31) : StreamContract (unhurriedInputStream c) c :=
  { byteArrayContract c hc with
    available_quiet := fun _ => rfl
    available_pos := fun _ => rfl
    available_nonneg := fun _ => Int.le_refl 0
    available_le := fun _ => Int.natCast_nonneg _
    available_int := fun _ => show (0 : ℤ) < 2 ^ 31 by decide
    available_mark := fun _ => rfl }

/-- An in-memory stream that drops its mark as soon as the read limit allows it to. -/
def forgetfulInputStream (c : List UInt8) : InputStream (ByteArrayState c × ℤ) where
  available s := (((byteArrayInputStream c).available s.1).1,s)
  read s b len :=
    let r := (byteArrayInputStream c).read s.1 b len
    (r.1,r.2.1,r.2.2,s.2)
  skip s n := (((byteArrayInputStream c).skip s.1 n).1,((byteArrayInputStream c).skip s.1 n).2,s.2)
  reset s :=
    if 0 ≤ s.2 ∧ (s.1.pos : ℤ) - s.1.mark ≤ s.2 then (false,((byteArrayInputStream c).reset s.1).2,s.2)
    else (true,s)
  mark s n := (false,((byteArrayInputStream c).mark s.1 n).2,n)

def forgetfulContract (c : List UInt8) : MarkContract (forgetfulInputStream c) c.length where
  pos s := s.1.pos
  markPos s := s.1.mark
  readLimit s := s.2
  pos_le s := s.1.pos_le
  available_pos _ := rfl
  available_kept _ := ⟨rfl,rfl⟩
  read_kept s b len := by
    dsimp only [forgetfulInputStream, byteArrayInputStream]
    split <;> exact ⟨rfl,rfl⟩
  skip_kept _ _ := ⟨rfl,rfl⟩
  reset_kept s := by
    dsimp only [forgetfulInputStream]
    split <;> exact ⟨rfl,rfl⟩
  mark_set _ _ := ⟨rfl,rfl⟩
  reset_pos s hnonneg hle := by
    dsimp only [forgetfulInputStream]
    rw [if_pos ⟨hnonneg,hle⟩]
    exact ⟨rfl,rfl⟩

end TiffJni.Jni
