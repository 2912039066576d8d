import TiffJni.Image.Handles
import TiffJni.Image.NativeCalls

/-! # Every handle is null or leads to an image of its own

The images of a process are apart from each other: each owns its objects, no two name the
same one. The handles of the Java objects are apart as well, and release, finalization
and construction, which share one routine, keep it so.
-/
namespace TiffJni.Image
open FixedWidth Jni TiffJni.Stream Machine Native Process
variable {σ : Type} {m : DataModel} {S : InputStream σ} {turns : ℕ} {n n' : Native σ} {s s' : Process σ}

/-- Each live image owns its objects, shares none, and has a serial number of its own. -/
structure ImagesSound (m : DataModel) (s : Process σ) : Prop where
  address : ∀ a live, s.images a = some live → 0 < a ∧ a < 2 ^ m.longBits
  serial : ∀ a live, s.images a = some live → live.serial < s.created ∧ live.serial ∉ s.deleted
  distinct : ∀ a a' live live', s.images a = some live → s.images a' = some live' →
    live.serial = live'.serial → a = a'
  nodup : s.deleted.Nodup
  bounded : ∀ serial ∈ s.deleted, serial < s.created
  owned : ∀ a live, s.images a = some live → Owned s.native live.image
  disjoint : ∀ a a' live live' x, s.images a = some live → s.images a' = some live' →
    live.image.Names s.native x → live'.image.Names s.native x → a = a'

/-- Each handle is null or the address of a live image, and no two are the same. -/
structure HandlesSound (m : DataModel) (s : Process σ) : Prop where
  context : s.objects ≠ [] → s.fieldsContext = getFieldID "mNativeContext" "J"
  named : ∀ (i : ℕ) (object : JavaObject), s.objects[i]? = some object →
    object.mNativeContext = 0 ∨ ∃ (a : ℕ) (live : LiveImage), object.mNativeContext = m.toLong a ∧
      s.images a = some live
  unique : ∀ (i j : ℕ) (object object' : JavaObject), s.objects[i]? = some object → s.objects[j]? = some object' →
    object.mNativeContext = object'.mNativeContext → object.mNativeContext ≠ 0 → i = j

def Cleared (s : Process σ) (thiz : ℕ) : Prop := s.objects[thiz]? = some ⟨0⟩

section Pointers

theorem toSizeT_toLong_of_lt {a : ℕ} (h : a < 2 ^ m.longBits) : m.toSizeT (m.toLong a) = a := by
  rw [DataModel.toSizeT_toLong]
  exact toUnsigned_of_lt h

theorem toSizeT_zero : m.toSizeT 0 = 0 := by
  cases m <;> rfl

theorem toPointer_toLong {a : ℕ} (hpos : 0 < a) (h : a < 2 ^ m.longBits) : toPointer m (m.toLong a) = some a := by
  unfold toPointer
  rw [toSizeT_toLong_of_lt h, if_neg hpos.ne']

theorem toPointer_zero : toPointer m 0 = none := by
  unfold toPointer
  rw [toSizeT_zero, if_pos rfl]

theorem toLong_ne_zero {a : ℕ} (hpos : 0 < a) (h : a < 2 ^ m.longBits) : m.toLong a ≠ 0 := by
  intro hzero
  have hback := toSizeT_toLong_of_lt h
  rw [hzero, toSizeT_zero] at hback
  omega

theorem toLong_injective {a a' : ℕ} (h : a < 2 ^ m.longBits) (h' : a' < 2 ^ m.longBits)
    (he : m.toLong a = m.toLong a') : a = a' := by
  rw [← toSizeT_toLong_of_lt h, he, toSizeT_toLong_of_lt h']

end Pointers

section Images
variable {a b : ℕ} {live other : LiveImage}

/-- Work on one image, within its own and new objects, leaves every other image as it was. -/
theorem ImagesSound.others (h : ImagesSound m s) (ha : s.images a = some live) (hb : s.images b = some other)
    (hne : b ≠ a) (hsame : ∀ x, x < s.native.heap.next → ¬live.image.Names s.native x →
      n'.heap.cells x = s.native.heap.cells x) :
    Owned n' other.image ∧ ∀ x, other.image.Names n' x ↔ other.image.Names s.native x := by
  have ho := h.owned b other hb
  have hkept : ∀ x, other.image.Names s.native x → n'.heap.cells x = s.native.heap.cells x := by
    intro x hx
    refine hsame x (ho.lt_next hx) ?_
    intro hx'
    exact hne (h.disjoint b a other live x hb ha hx hx')
  exact ⟨ho.frame hkept,fun x => TiffImage.Names.congr fun q hq => hkept q (Or.inr (Or.inr (Or.inl hq)))⟩

theorem ImagesSound.delete (h : ImagesSound m s) (ha : s.images a = some live)
    (hr : Removed s.native (live.image.Names s.native) n') : ImagesSound m { s with
      native := n'
      images := Function.update s.images a none
      deleted := live.serial :: s.deleted } := by
  have hold : ∀ b other, Function.update s.images a none b = some other → b ≠ a ∧ s.images b = some other := by
    intro b other hb
    by_cases hba : b = a
    · rw [hba, Function.update_self] at hb
      cases hb
    · rw [Function.update_of_ne hba] at hb
      exact ⟨hba,hb⟩
  obtain ⟨hlt,hnew⟩ := h.serial a live ha
  constructor
  · intro b other hb
    exact h.address b other (hold b other hb).2
  · intro b other hb
    obtain ⟨hne,hb⟩ := hold b other hb
    obtain ⟨hlt',hnew'⟩ := h.serial b other hb
    refine ⟨hlt',?_⟩
    intro hmem
    rcases List.mem_cons.mp hmem with hsame | hmem
    · exact hne (h.distinct b a other live hb ha hsame)
    · exact hnew' hmem
  · intro b b' other other' hb hb'
    exact h.distinct b b' other other' (hold b other hb).2 (hold b' other' hb').2
  · exact List.nodup_cons.mpr ⟨hnew,h.nodup⟩
  · intro serial hmem
    rcases List.mem_cons.mp hmem with rfl | hmem
    · exact hlt
    · exact h.bounded serial hmem
  · intro b other hb
    obtain ⟨hne,hb⟩ := hold b other hb
    exact (h.others ha hb hne fun x _ hx => hr.same x hx).1
  · intro b b' other other' x hb hb' hx hx'
    obtain ⟨hne,hb⟩ := hold b other hb
    obtain ⟨hne',hb'⟩ := hold b' other' hb'
    have hnames := (h.others ha hb hne fun x _ hx => hr.same x hx).2 x
    have hnames' := (h.others ha hb' hne' fun x _ hx => hr.same x hx).2 x
    exact h.disjoint b b' other other' x hb hb' (hnames.mp hx) (hnames'.mp hx')

/-- An image put at an address, where there was one or not, is sound when it owns its objects,
names none of another image, and no other image has its serial number. -/
theorem ImagesSound.put (h : ImagesSound m s) {serial created : ℕ} {image : TiffImage}
    (haddress : 0 < a ∧ a < 2 ^ m.longBits) (hserial : serial < created ∧ serial ∉ s.deleted)
    (hcreated : s.created ≤ created) (ho : Owned n' image)
    (hothers : ∀ b other, b ≠ a → s.images b = some other → other.serial ≠ serial ∧ Owned n' other.image ∧
      ∀ x, other.image.Names n' x → other.image.Names s.native x ∧ ¬image.Names n' x) :
    ImagesSound m { s with
      native := n'
      images := Function.update s.images a (some ⟨serial,image⟩)
      created := created } := by
  have hcase : ∀ b other, Function.update s.images a (some ⟨serial,image⟩) b = some other →
      (b = a ∧ other = ⟨serial,image⟩) ∨ (b ≠ a ∧ s.images b = some other) := by
    intro b other hb
    by_cases hba : b = a
    · rw [hba, Function.update_self] at hb
      exact Or.inl ⟨hba,(Option.some.inj hb).symm⟩
    · rw [Function.update_of_ne hba] at hb
      exact Or.inr ⟨hba,hb⟩
  constructor
  · intro b other hb
    rcases hcase b other hb with ⟨rfl,-⟩ | ⟨-,hb₁⟩
    · exact haddress
    · exact h.address b other hb₁
  · intro b other hb
    rcases hcase b other hb with ⟨-,rfl⟩ | ⟨-,hb₁⟩
    · exact hserial
    · exact ⟨(h.serial b other hb₁).1.trans_le hcreated,(h.serial b other hb₁).2⟩
  · intro b b' other other' hb hb' hsame
    rcases hcase b other hb with ⟨rfl,rfl⟩ | ⟨hne,hb₁⟩
    · rcases hcase b' other' hb' with ⟨rfl,-⟩ | ⟨hne',hb₁'⟩
      · rfl
      · exact ((hothers b' other' hne' hb₁').1 hsame.symm).elim
    · rcases hcase b' other' hb' with ⟨rfl,rfl⟩ | ⟨hne',hb₁'⟩
      · exact ((hothers b other hne hb₁).1 hsame).elim
      · exact h.distinct b b' other other' hb₁ hb₁' hsame
  · exact h.nodup
  · exact fun serial hmem => (h.bounded serial hmem).trans_le hcreated
  · intro b other hb
    rcases hcase b other hb with ⟨-,rfl⟩ | ⟨hne,hb₁⟩
    · exact ho
    · exact (hothers b other hne hb₁).2.1
  · intro b b' other other' x hb hb' hx hx'
    rcases hcase b other hb with ⟨rfl,rfl⟩ | ⟨hne,hb₁⟩
    · rcases hcase b' other' hb' with ⟨rfl,-⟩ | ⟨hne',hb₁'⟩
      · rfl
      · exact (((hothers b' other' hne' hb₁').2.2 x hx').2 hx).elim
    · rcases hcase b' other' hb' with ⟨rfl,rfl⟩ | ⟨hne',hb₁'⟩
      · exact (((hothers b other hne hb₁).2.2 x hx).2 hx').elim
      · exact h.disjoint b b' other other' x hb₁ hb₁' ((hothers b other hne hb₁).2.2 x hx).1
          ((hothers b' other' hne' hb₁').2.2 x hx').1

theorem ImagesSound.replace (h : ImagesSound m s) (ha : s.images a = some live) {image : TiffImage}
    (hi : Isolated s.native n') (ho : Owned n' image)
    (hnames : ∀ x, image.Names n' x → s.native.heap.next ≤ x ∨ live.image.Names s.native x) :
    ImagesSound m { s with
      native := n'
      images := Function.update s.images a (some ⟨live.serial,image⟩) } := by
  refine h.put (h.address a live ha) (h.serial a live ha) (Nat.le_refl _) ho ?_
  intro b other hne hb
  obtain ⟨howned,hsame⟩ := h.others ha hb hne fun x hx _ => hi.cells_eq hx
  refine ⟨fun hserial => hne (h.distinct b a other live hb ha hserial),howned,?_⟩
  intro x hx
  have hold := (hsame x).mp hx
  refine ⟨hold,?_⟩
  intro hx'
  have hlt := (h.owned b other hb).lt_next hold
  rcases hnames x hx' with hnew | hlive
  · omega
  · exact hne (h.disjoint b a other live x hb ha hold hlive)

theorem ImagesSound.create (h : ImagesSound m s) (haddress : 0 < a ∧ a < 2 ^ m.longBits) :
    ImagesSound m { s with
      images := Function.update s.images a (some ⟨s.created,TiffImage.new⟩)
      created := s.created + 1 } := by
  have hserial : s.created ∉ s.deleted := fun hmem => Nat.lt_irrefl _ (h.bounded _ hmem)
  refine h.put haddress ⟨Nat.lt_succ_self _,hserial⟩ (Nat.le_succ _) (Owned.new _) ?_
  intro b other _ hb
  refine ⟨Nat.ne_of_lt (h.serial b other hb).1,h.owned b other hb,?_⟩
  exact fun x hx => ⟨hx,TiffImage.not_names_new⟩

end Images

section HandleUpdates
variable {thiz : ℕ} {object : JavaObject}

theorem HandlesSound.context_of_object (h : HandlesSound m s) (ho : s.objects[thiz]? = some object) :
    s.fieldsContext = getFieldID "mNativeContext" "J" := by
  refine h.context ?_
  intro hnil
  rw [hnil] at ho
  cases ho

/-- Overwriting one handle keeps the handles apart, when the new value is null or the address of
an image that no other object names. -/
theorem HandlesSound.set (h : HandlesSound m s) (hi : ImagesSound m s) (ho : s.objects[thiz]? = some object)
    {value : ℤ} (hobjects : s'.objects = s.objects.set thiz ⟨value⟩) (hcontext : s'.fieldsContext = s.fieldsContext)
    (hkept : ∀ a : ℕ, object.mNativeContext ≠ m.toLong a → s'.images a = s.images a)
    (hvalue : value = 0 ∨ (∃ (a : ℕ) (live : LiveImage), value = m.toLong a ∧ s'.images a = some live) ∧
      ∀ (i : ℕ) (other : JavaObject), s.objects[i]? = some other → other.mNativeContext ≠ value) :
    HandlesSound m s' := by
  have hcase : ∀ (i : ℕ) (other : JavaObject), s'.objects[i]? = some other →
      (i = thiz ∧ other = ⟨value⟩) ∨ (i ≠ thiz ∧ s.objects[i]? = some other) := by
    intro i other hother
    rw [hobjects] at hother
    by_cases hit : i = thiz
    · obtain ⟨hlt,-⟩ := List.getElem?_eq_some_iff.mp ho
      rw [hit, List.getElem?_set_self hlt] at hother
      exact Or.inl ⟨hit,(Option.some.inj hother).symm⟩
    · rw [List.getElem?_set_ne (Ne.symm hit)] at hother
      exact Or.inr ⟨hit,hother⟩
  constructor
  · intro _
    rw [hcontext]
    exact h.context_of_object ho
  · intro i other hother
    rcases hcase i other hother with ⟨-,rfl⟩ | ⟨hne,hother⟩
    · rcases hvalue with hzero | ⟨hlive,-⟩
      · exact Or.inl hzero
      · exact Or.inr hlive
    · rcases h.named i other hother with hzero | ⟨a,live,ha,hlive⟩
      · exact Or.inl hzero
      · refine Or.inr ⟨a,live,ha,?_⟩
        rw [hkept a ?_]
        · exact hlive
        intro hsame
        obtain ⟨hpos,hlt⟩ := hi.address a live hlive
        refine hne (h.unique i thiz other object hother ho (ha.trans hsame.symm) ?_)
        rw [ha]
        exact toLong_ne_zero hpos hlt
  · intro i j other other' hother hother' hsame hne
    rcases hcase i other hother with ⟨rfl,rfl⟩ | ⟨hi',hold⟩
    · rcases hcase j other' hother' with ⟨rfl,-⟩ | ⟨hj,hold'⟩
      · rfl
      · rcases hvalue with hzero | ⟨-,hfresh⟩
        · exact (hne hzero).elim
        · exact (hfresh j other' hold' hsame.symm).elim
    · rcases hcase j other' hother' with ⟨rfl,rfl⟩ | ⟨hj,hold'⟩
      · rcases hvalue with hzero | ⟨-,hfresh⟩
        · exact (hne (hsame.trans hzero)).elim
        · exact (hfresh i other hold hsame).elim
      · exact h.unique i j other other' hold hold' hsame hne

theorem HandlesSound.images (h : HandlesSound m s) (hobjects : s'.objects = s.objects)
    (hcontext : s'.fieldsContext = s.fieldsContext)
    (hlive : ∀ (a : ℕ) (live : LiveImage), s.images a = some live → ∃ live', s'.images a = some live') :
    HandlesSound m s' := by
  constructor
  · rw [hobjects, hcontext]
    exact h.context
  · rw [hobjects]
    intro i object ho
    rcases h.named i object ho with hzero | ⟨a,live,ha,hc⟩
    · exact Or.inl hzero
    · obtain ⟨live',hc'⟩ := hlive a live hc
      exact Or.inr ⟨a,live',ha,hc'⟩
  · rw [hobjects]
    exact h.unique

theorem HandlesSound.newObject (h : HandlesSound m s) : HandlesSound m { s with
    objects := s.objects ++ [⟨0⟩]
    fieldsContext := getFieldID "mNativeContext" "J" } := by
  have hcase : ∀ (i : ℕ) (other : JavaObject), (s.objects ++ [⟨0⟩])[i]? = some other →
      s.objects[i]? = some other ∨ other = ⟨0⟩ := by
    intro i other hother
    rw [List.getElem?_append] at hother
    split at hother
    · exact Or.inl hother
    · exact Or.inr (List.mem_singleton.mp (List.mem_of_getElem? hother))
  constructor
  · exact fun _ => rfl
  · intro i other hother
    rcases hcase i other hother with hold | rfl
    · exact h.named i other hold
    · exact Or.inl rfl
  · intro i j other other' hother hother' hsame hne
    rcases hcase i other hother with hold | rfl
    · rcases hcase j other' hother' with hold' | rfl
      · exact h.unique i j other other' hold hold' hsame hne
      · exact (hne hsame).elim
    · exact (hne rfl).elim

end HandleUpdates

section Operations
variable {thiz : ℕ} {object : JavaObject}

/-- How an operation may fail to return: it is issued on no object, a read loop goes on, or an
access leaves its block. No image is missed and no pointer dangles. -/
def Benign (stop : ProcessStop) : Prop :=
  stop = .noObject ∨ stop = .native .stillRunning ∨ stop = .native .outOfBounds

theorem Halted.benign {base : Native σ} {fits : Prop} {stop : Stop} (h : Halted base fits stop n) :
    Benign (.native stop) := by
  cases stop with
  | stillRunning => exact Or.inr (Or.inl rfl)
  | outOfBounds => exact Or.inr (Or.inr rfl)
  | dangling p => exact (h.notDangling p rfl).elim

theorem findField_ends {Q : JavaObject → Process σ → Prop} {E : ProcessStop → Process σ → Prop}
    (ho : s.objects[thiz]? = some object) (hc : s.fieldsContext = getFieldID "mNativeContext" "J") (h : Q object s) :
    (findField thiz s.fieldsContext).Ends s Q E := by
  refine Program.Ends.of_ok ?_ h
  simp only [findField, ho, hc, ↓reduceIte]

theorem getTiffImage_ends {Q : Option ℕ → Process σ → Prop} {E : ProcessStop → Process σ → Prop}
    (ho : s.objects[thiz]? = some object) (hc : s.fieldsContext = getFieldID "mNativeContext" "J")
    (h : Q (toPointer m object.mNativeContext) s) : (getTiffImage m thiz).Ends s Q E := by
  apply Program.Ends.bind
  apply Program.Ends.get
  apply Program.Ends.bind
  apply Program.Ends.bind
  exact findField_ends ho hc (Program.Ends.pure (Program.Ends.pure h))

theorem setLongField_ends {value : ℤ} {Q : Unit → Process σ → Prop} {E : ProcessStop → Process σ → Prop}
    (ho : s.objects[thiz]? = some object) (hc : s.fieldsContext = getFieldID "mNativeContext" "J")
    (h : Q () { s with objects := s.objects.set thiz ⟨value⟩ }) :
    (setLongField thiz s.fieldsContext value).Ends s Q E := by
  apply Program.Ends.bind
  exact findField_ends ho hc (Program.Ends.modify h)

theorem loadTiffImage_ends {a : ℕ} {live : LiveImage} {Q : LiveImage → Process σ → Prop}
    {E : ProcessStop → Process σ → Prop} (ha : s.images a = some live) (h : Q live s) :
    (loadTiffImage a).Ends s Q E := by
  refine Program.Ends.of_ok ?_ h
  simp only [loadTiffImage, ha]

theorem deleteTiffImage_ends {a : ℕ} {live : LiveImage} (hi : ImagesSound m s) (ha : s.images a = some live) :
    (deleteTiffImage m S turns a).Ends s (fun _ s' => ImagesSound m s' ∧ s'.objects = s.objects ∧
      s'.fieldsContext = s.fieldsContext ∧ s'.images = Function.update s.images a none) (fun _ _ => False) := by
  apply Program.Ends.bind
  apply loadTiffImage_ends ha
  apply Program.Ends.bind
  apply Program.Ends.zoom
  refine (destroy_ends (hi.owned a live ha)).mono ?_ (fun _ _ he => he)
  intro _ n' hr
  exact Program.Ends.modify ⟨hi.delete ha hr,rfl,rfl,rfl⟩

theorem HandlesSound.toPointer_cases (h : HandlesSound m s) (hi : ImagesSound m s)
    (ho : s.objects[thiz]? = some object) :
    (object.mNativeContext = 0 ∧ toPointer m object.mNativeContext = none) ∨
      ∃ (a : ℕ) (live : LiveImage), object.mNativeContext = m.toLong a ∧
        toPointer m object.mNativeContext = some a ∧ s.images a = some live := by
  rcases h.named thiz object ho with hzero | ⟨a,live,ha,hlive⟩
  · refine Or.inl ⟨hzero,?_⟩
    rw [hzero]
    exact toPointer_zero
  · obtain ⟨hpos,hlt⟩ := hi.address a live hlive
    refine Or.inr ⟨a,live,ha,?_,hlive⟩
    rw [ha]
    exact toPointer_toLong hpos hlt

/-- The old image is deleted before its handle is overwritten. -/
theorem setTiffImage_ends (h : HandlesSound m s) (hi : ImagesSound m s) (ho : s.objects[thiz]? = some object)
    (value : ℤ) : (Process.setTiffImage m S turns thiz value).Ends s (fun _ s' => ImagesSound m s' ∧
      s'.objects = s.objects.set thiz ⟨value⟩ ∧ s'.fieldsContext = s.fieldsContext ∧
      ∀ a : ℕ, object.mNativeContext ≠ m.toLong a → s'.images a = s.images a) (fun _ _ => False) := by
  have hc := h.context_of_object ho
  apply Program.Ends.bind
  apply getTiffImage_ends ho hc
  rcases h.toPointer_cases hi ho with ⟨-,hnull⟩ | ⟨a,live,ha,hpointer,hlive⟩
  · rw [hnull]
    apply Program.Ends.bind
    apply Program.Ends.get
    exact setLongField_ends ho hc ⟨{ hi with },rfl,rfl,fun _ _ => rfl⟩
  · rw [hpointer]
    apply Program.Ends.bind
    refine (deleteTiffImage_ends hi hlive).mono ?_ (fun _ _ he => he)
    rintro _ t ⟨hi',hobjects,hcontext,himages⟩
    apply Program.Ends.bind
    apply Program.Ends.get
    refine setLongField_ends (hobjects ▸ ho) (hcontext.trans hc) ⟨{ hi' with },?_,hcontext,?_⟩
    · rw [hobjects]
    · intro b hb
      have hne : b ≠ a := by
        rintro rfl
        exact hb ha
      show t.images b = s.images b
      rw [himages, Function.update_of_ne hne]

structure Sound (m : DataModel) (s : Process σ) : Prop where
  images : ImagesSound m s
  handles : HandlesSound m s

/-- An operation keeps the process sound and every null handle null. -/
def Continues (m : DataModel) (s s' : Process σ) : Prop := Sound m s' ∧ ∀ thiz, Cleared s thiz → Cleared s' thiz

theorem findField_missing {field : Option ℕ} (ho : s.objects[thiz]? = none) :
    findField thiz field s = (.error .noObject,s) := by
  simp only [findField, ho]

theorem getTiffImage_missing {Q : Option ℕ → Process σ → Prop} (ho : s.objects[thiz]? = none) :
    (getTiffImage m thiz).Ends s Q (fun stop _ => Benign stop) := by
  apply Program.Ends.bind
  apply Program.Ends.get
  apply Program.Ends.bind
  apply Program.Ends.bind
  exact Program.Ends.of_error (findField_missing ho) (Or.inl rfl)

theorem Cleared.set {value : ℤ} {other : ℕ} (h : Cleared s other) (hne : other ≠ thiz)
    (hobjects : s'.objects = s.objects.set thiz ⟨value⟩) : Cleared s' other := by
  unfold Cleared at h ⊢
  rw [hobjects, List.getElem?_set_ne hne.symm]
  exact h

theorem nativeReleaseJNI_continues (hs : Sound m s) (thiz : ℕ) :
    (Process.nativeReleaseJNI m S turns thiz).Ends s (fun _ s' => Continues m s s' ∧ Cleared s' thiz)
      (fun stop _ => Benign stop) := by
  apply Program.Ends.bind
  cases ho : s.objects[thiz]? with
  | none =>
    apply Program.Ends.bind
    exact getTiffImage_missing ho
  | some object =>
    refine (setTiffImage_ends hs.handles hs.images ho 0).mono ?_ (fun _ _ he => he.elim)
    rintro _ s' ⟨hi,hobjects,hcontext,hkept⟩
    have hcleared : Cleared s' thiz := by
      obtain ⟨hlt,-⟩ := List.getElem?_eq_some_iff.mp ho
      unfold Cleared
      rw [hobjects, List.getElem?_set_self hlt]
    refine Program.Ends.pure ⟨⟨⟨hi,hs.handles.set hs.images ho hobjects hcontext hkept (Or.inl rfl)⟩,?_⟩,hcleared⟩
    intro other hother
    by_cases hsame : other = thiz
    · rw [hsame]
      exact hcleared
    · exact hother.set hsame hobjects

theorem imageMethodJNI_cleared (hs : Sound m s) (h : Cleared s thiz) {call : NativeCall σ} (hcall : call ≠ .release) :
    imageMethodJNI m S turns thiz call s = (.ok (.threw .illegalState),s) := by
  have hget : getTiffImage m thiz s = (.ok none,s) := by
    have hends := getTiffImage_ends (m := m) (Q := fun a t => a = none ∧ t = s) (E := fun _ _ => False) h
      (hs.handles.context_of_object h) ⟨toPointer_zero,rfl⟩
    rcases hr : getTiffImage m thiz s with ⟨stop | a,t⟩
    · exact (hends.stopped hr).elim
    · obtain ⟨rfl,rfl⟩ := hends.returned hr
      rfl
  have hperform : perform m S turns none call s.native = (.ok (.threw .illegalState,none),s.native) := by
    cases call with
    | release => exact (hcall rfl).elim
    | _ => rfl
  change Program.bind _ _ s = _
  rw [Program.bind, hget]
  change Program.bind (onNative _) _ s = _
  rw [Program.bind, onNative, Program.zoom, hperform]
  rfl

theorem imageMethodJNI_continues (hs : Sound m s) (thiz : ℕ) {call : NativeCall σ} (hcall : call ≠ .release) :
    (imageMethodJNI m S turns thiz call).Ends s (fun _ s' => Continues m s s') (fun stop _ => Benign stop) := by
  cases ho : s.objects[thiz]? with
  | none =>
    apply Program.Ends.bind
    exact getTiffImage_missing ho
  | some object =>
    have hc := hs.handles.context_of_object ho
    rcases hs.handles.toPointer_cases hs.images ho with ⟨hzero,-⟩ | ⟨a,live,ha,hpointer,hlive⟩
    · refine Program.Ends.of_ok (imageMethodJNI_cleared hs ?_ hcall) ⟨hs,fun _ h => h⟩
      rw [Cleared, ho, ← hzero]
    apply Program.Ends.bind
    apply getTiffImage_ends ho hc
    rw [hpointer]
    apply Program.Ends.bind
    apply loadTiffImage_ends hlive
    apply Program.Ends.bind
    apply Program.Ends.zoom
    have hown : ∀ image, some live.image = some image → Owned s.native image := by
      rintro _ ⟨⟩
      exact hs.images.owned a live hlive
    refine (perform_ends fun _ => hown).mono ?_ (fun _ _ he => he.benign)
    intro r n' hperformed
    have hreplaced : ∃ image, r.2 = some image ∧ ImagesSound m { s with
        native := n'
        images := Function.update s.images a (some ⟨live.serial,image⟩) } := by
      have howned := hs.images.owned a live hlive
      cases hperformed with
      | idle _ =>
        exact ⟨live.image,rfl,hs.images.replace hlive (Isolated.refl _) howned (fun _ hx => Or.inr hx)⟩
      | decoded _ hd _ =>
        exact ⟨_,rfl,hs.images.replace hlive hd.isolated (hd.owned howned) (fun _ hx => hd.names_cases howned hx)⟩
      | released _ => exact (hcall rfl).elim
    obtain ⟨image,himage,hi⟩ := hreplaced
    apply Program.Ends.bind
    apply Program.Ends.modify
    rw [himage]
    refine Program.Ends.pure ⟨⟨{ hi with },hs.handles.images rfl rfl ?_⟩,fun _ h => h⟩
    intro b other hb
    by_cases hba : b = a
    · exact ⟨_,by rw [hba]; exact Function.update_self ..⟩
    · exact ⟨other,(Function.update_of_ne hba _ _).trans hb⟩

theorem construct_continues (hs : Sound m s) (address : ℕ) :
    (execute m S turns (.construct address)).Ends s (fun _ s' => Continues m s s') (fun stop _ => Benign stop) := by
  have hbelow : ∀ (thiz : ℕ) (object : JavaObject) (objects : List JavaObject), s.objects[thiz]? = some object →
      (s.objects ++ objects)[thiz]? = some object := by
    intro thiz object objects ho
    obtain ⟨hlt,-⟩ := List.getElem?_eq_some_iff.mp ho
    rw [List.getElem?_append_left hlt]
    exact ho
  have hs₁ : Sound m { s with
      objects := s.objects ++ [⟨0⟩]
      fieldsContext := getFieldID "mNativeContext" "J" } := ⟨{ hs.images with },hs.handles.newObject⟩
  have hnew : (s.objects ++ [⟨0⟩])[s.objects.length]? = some ⟨0⟩ := by simp
  have hfield : getFieldID "mNativeContext" "J" = some 0 := by decide
  apply Program.Ends.bind
  refine Program.Ends.of_ok rfl ?_
  apply Program.Ends.bind
  apply Program.Ends.modify
  apply Program.Ends.bind
  apply Program.Ends.get
  rw [hfield] at hs₁ ⊢
  apply Program.Ends.bind
  by_cases hfree : 0 < address ∧ address < 2 ^ m.longBits ∧ (s.images address).isNone
  · refine Program.Ends.of_ok (if_pos hfree) ?_
    obtain ⟨hpos,hlt,hnone⟩ := hfree
    rw [Option.isNone_iff_eq_none] at hnone
    have hi₂ := hs₁.images.create ⟨hpos,hlt⟩
    have hother : ∀ (a : ℕ) (live : LiveImage), s.images a = some live → a ≠ address := by
      rintro a live ha rfl
      cases hnone.symm.trans ha
    have hh₂ : HandlesSound m { s with
        objects := s.objects ++ [⟨0⟩]
        fieldsContext := some 0
        images := Function.update s.images address (some ⟨s.created,TiffImage.new⟩)
        created := s.created + 1 } := hs₁.handles.images rfl rfl
      (fun a live ha => ⟨live,(Function.update_of_ne (hother a live ha) _ _).trans ha⟩)
    apply Program.Ends.bind
    refine (setTiffImage_ends hh₂ hi₂ hnew (m.toLong address)).mono ?_ (fun _ _ he => he.elim)
    rintro _ t ⟨hi,hobjects,hcontext,hkept⟩
    have hlive : t.images address = some ⟨s.created,TiffImage.new⟩ :=
      (hkept address (Ne.symm (toLong_ne_zero hpos hlt))).trans (Function.update_self ..)
    refine Program.Ends.pure ⟨⟨hi,hh₂.set hi₂ hnew hobjects hcontext hkept (Or.inr ⟨⟨address,_,rfl,hlive⟩,?_⟩)⟩,?_⟩
    · intro i other hi' hsame
      rcases hs₁.handles.named i other hi' with hzero | ⟨a,live,ha,hlive'⟩
      · exact toLong_ne_zero hpos hlt (hsame.symm.trans hzero)
      · exact hother a live hlive' (toLong_injective (hs.images.address a live hlive').2 hlt (ha.symm.trans hsame))
    · intro thiz hthiz
      have hlt' := (List.getElem?_eq_some_iff.mp hthiz).1
      exact Cleared.set (s := { s with objects := s.objects ++ [⟨0⟩] }) (hbelow thiz _ _ hthiz) (Nat.ne_of_lt hlt')
        hobjects
  · refine Program.Ends.of_ok (if_neg hfree) ?_
    exact Program.Ends.pure ⟨hs₁,fun thiz hthiz => hbelow thiz _ _ hthiz⟩

theorem execute_call_of_ne (thiz : ℕ) {call : NativeCall σ} (hcall : call ≠ .release) :
    execute m S turns (.call thiz call) = imageMethodJNI m S turns thiz call := by
  cases call with
  | release => exact (hcall rfl).elim
  | _ => rfl

theorem Operation.releases_call {thiz other : ℕ} {call : NativeCall σ}
    (h : (Operation.call thiz call).releases other) : call = .release := by
  cases call with
  | release => rfl
  | _ => exact h.elim

theorem execute_continues (hs : Sound m s) (op : Operation σ) : (execute m S turns op).Ends s
    (fun _ s' => Continues m s s' ∧ ∀ thiz, op.releases thiz → Cleared s' thiz) (fun stop _ => Benign stop) := by
  cases op with
  | construct address =>
    exact (construct_continues hs address).mono (fun _ _ h => ⟨h,fun _ hr => hr.elim⟩) (fun _ _ he => he)
  | finalize thiz =>
    refine (nativeReleaseJNI_continues hs thiz).mono ?_ (fun _ _ he => he)
    rintro _ s' ⟨hcontinues,hcleared⟩
    refine ⟨hcontinues,?_⟩
    rintro _ rfl
    exact hcleared
  | call thiz call =>
    by_cases hcall : call = .release
    · subst hcall
      refine (nativeReleaseJNI_continues hs thiz).mono ?_ (fun _ _ he => he)
      rintro _ s' ⟨hcontinues,hcleared⟩
      refine ⟨hcontinues,?_⟩
      rintro _ rfl
      exact hcleared
    · rw [execute_call_of_ne thiz hcall]
      refine (imageMethodJNI_continues hs thiz hcall).mono ?_ (fun _ _ he => he)
      intro _ s' hcontinues
      exact ⟨hcontinues,fun _ hr => (hcall (Operation.releases_call hr)).elim⟩

/-- Any operations: what was released at some point has a null handle from then on. -/
theorem runOperations_continues (ops : List (Operation σ)) (hs : Sound m s) :
    (runOperations m S turns ops).Ends s (fun _ s' => Continues m s s' ∧
      ∀ op ∈ ops, ∀ thiz, op.releases thiz → Cleared s' thiz) (fun stop _ => Benign stop) := by
  induction ops generalizing s with
  | nil => exact Program.Ends.pure ⟨⟨hs,fun _ h => h⟩,by simp⟩
  | cons op ops ih =>
    apply Program.Ends.bind
    apply Program.Ends.bind
    refine (execute_continues hs op).mono ?_ (fun _ _ he => he)
    rintro _ t ⟨⟨ht,hkept⟩,hcleared⟩
    apply Program.Ends.pure
    refine (ih ht).mono ?_ (fun _ _ he => he)
    rintro _ s' ⟨⟨hs',hkept'⟩,hcleared'⟩
    refine ⟨⟨hs',fun thiz h => hkept' thiz (hkept thiz h)⟩,?_⟩
    intro op' hop thiz hr
    rcases List.mem_cons.mp hop with rfl | hop
    · exact hkept' thiz (hcleared thiz hr)
    · exact hcleared' op' hop thiz hr

theorem Sound.initial (n : Native σ) : Sound m (Process.initial n) := by
  constructor
  · constructor <;> simp [Process.initial]
  · constructor <;> simp [Process.initial]

end Operations

structure Lifecycle (m : DataModel) (S : InputStream σ) (turns : ℕ) (ops : List (Operation σ)) (s : Process σ) :
    Prop where
  handle : ∀ (i : ℕ) (object : JavaObject), s.objects[i]? = some object → object.mNativeContext = 0 ∨
    ∃ (a : ℕ) (live : LiveImage), toPointer m object.mNativeContext = some a ∧ s.images a = some live ∧
      live.serial ∉ s.deleted ∧ ∀ (j : ℕ) (other : JavaObject), s.objects[j]? = some other →
        toPointer m other.mNativeContext = some a → j = i
  deletedOnce : s.deleted.Nodup
  reachesLive : ∀ op stop s', execute m S turns op s = (.error stop,s') → Benign stop
  released : ∀ op ∈ ops, ∀ thiz, op.releases thiz → ∀ call, call ≠ .release →
    execute m S turns (.call thiz call) s = (.ok (.threw .illegalState),s)

theorem handle_lifecycle (m : DataModel) (S : InputStream σ) (turns : ℕ) {ops : List (Operation σ)} {n₀ : Native σ}
    {s : Process σ} (hrun : runOperations m S turns ops (Process.initial n₀) = (.ok (),s)) :
    Lifecycle m S turns ops s := by
  obtain ⟨⟨hs,-⟩,hcleared⟩ := (runOperations_continues ops (Sound.initial n₀)).returned hrun
  constructor
  · intro i object ho
    rcases hs.handles.toPointer_cases hs.images ho with ⟨hzero,-⟩ | ⟨a,live,ha,hpointer,hlive⟩
    · exact Or.inl hzero
    refine Or.inr ⟨a,live,hpointer,hlive,(hs.images.serial a live hlive).2,?_⟩
    intro j other hother hpointer'
    rcases hs.handles.toPointer_cases hs.images hother with ⟨-,hnull⟩ | ⟨a',live',ha',hpointer₁,-⟩
    · cases hnull.symm.trans hpointer'
    · cases hpointer₁.symm.trans hpointer'
      obtain ⟨hpos,hlt⟩ := hs.images.address _ live hlive
      refine hs.handles.unique j i other object hother ho (ha'.trans ha.symm) ?_
      rw [ha']
      exact toLong_ne_zero hpos hlt
  · exact hs.images.nodup
  · exact fun op stop s' hstop => (execute_continues hs op).stopped hstop
  · intro op hop thiz hr call hcall
    rw [execute_call_of_ne thiz hcall]
    exact imageMethodJNI_cleared hs (hcleared op hop thiz hr) hcall

/-- Two objects; the first is used, released twice and used again, then its address is reused. -/
def reusedAddress : List (Operation (ByteArrayState [1,2,3])) :=
  [.construct 16,.construct 32,.call 0 .getWidth,.call 0 .release,.finalize 0,.call 0 .getSize,.construct 16]

theorem handle_lifecycle_reusedAddress : ∃ s,
    runOperations .lp64 (byteArrayInputStream [1,2,3]) 4 reusedAddress (Process.initial Native.empty) = (.ok (),s) ∧
      Lifecycle .lp64 (byteArrayInputStream [1,2,3]) 4 reusedAddress s := by
  have hfst : (runOperations .lp64 (byteArrayInputStream [1,2,3]) 4 reusedAddress
      (Process.initial Native.empty)).1 = .ok () := by decide +kernel
  obtain ⟨s,hrun⟩ := Program.returns_of_fst hfst
  exact ⟨s,hrun,handle_lifecycle .lp64 (byteArrayInputStream [1,2,3]) 4 hrun⟩

end TiffJni.Image
