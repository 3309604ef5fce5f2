import Notebook.Cyber.ClassLoader.ClassLoader

/-!
# Whether a loader has loaded its library

`IsLibraryLoaded` compares the number of class factories of the library that the loader owns with
the number of all factories of the library, and it accepts a smaller number. So its answer is
whether any loader has loaded the library. `CreateClassObj` loads the library only if the answer is
no; a loader that has unloaded the library does not own its factories any more and gets no object as
long as another loader keeps the library open.
-/

open Container Interleaving Function List Option

namespace Cyber.ClassLoader

variable {L : Type*}

/-- Loaders for the path `p`, loads and unloads. -/
def LoadsOnly (p : String) : Event L → Prop
  | .construct _ libraryPath => libraryPath = p
  | .loadLibrary _ | .unloadLibrary _ => True
  | .createClassObj .. | .deleteObj _ | .destruct _ => False

/-- Only the library `p` is open, its factories are those of its classes and belong to the loaders
that have loaded it, and it is open if there is such a loader. -/
structure LoadedBy (classes : String → List ClassId) (p : String) (n : L → ℕ) (r : Registry L) :
    Prop where
  only : ∀ q ∈ r.openedLibraries, q = p
  complete : r.Complete classes
  owners : ∀ e ∈ r.factories, ∀ l, l ∈ e.owners ↔ 0 < n l
  opened : ∀ l, 0 < n l → p ∈ r.openedLibraries

/-- The loaders have counted their loads, and there are no objects. -/
structure LoadInv (classes : String → List ClassId) (p : String) (n : L → ℕ) (s : State L) :
    Prop where
  registry : LoadedBy classes p n s.registry
  loader : ∀ l, ∀ loader ∈ s.loaders l, loader = ⟨p, n l, 0⟩
  none : ∀ l, s.loaders l = none → n l = 0
  objects : s.objects = []

variable {classes : String → List ClassId} {p : String} {n n' : L → ℕ} {r : Registry L} {l : L}
  {s s' : State L}

section

variable (h : LoadedBy classes p n r)

include h

theorem LoadedBy.congr (hn : ∀ l, 0 < n' l ↔ 0 < n l) : LoadedBy classes p n' r where
  only := h.only
  complete := h.complete
  owners := fun e he l => (h.owners e he l).trans (hn l).symm
  opened := fun l hl => h.opened l ((hn l).mp hl)

theorem LoadedBy.group_eq : ∀ e ∈ r.factories, e.group = p :=
  fun e he => h.only _ (r.opened e he)

theorem LoadedBy.owns (hl : 0 < n l) : r.factories.Owns l p :=
  fun e he _ => (h.owners e he l).mpr hl

theorem LoadedBy.ofGroup_ne_nil (hclasses : classes p ≠ [])
    (hp : p ∈ r.openedLibraries) : r.factories.ofGroup p ≠ [] := by
  obtain ⟨id, hid⟩ := exists_mem_of_ne_nil _ hclasses
  obtain ⟨e, he, -, hgroup⟩ := h.complete.registered p hp id hid
  exact OwnerTable.ofGroup_ne_nil_iff.mpr ⟨e, he, hgroup⟩

theorem LoadedBy.opened_iff_exists (hclasses : classes p ≠ []) :
    p ∈ r.openedLibraries ↔ ∃ l, 0 < n l := by
  constructor
  · intro hp
    obtain ⟨e, he, -⟩ := OwnerTable.ofGroup_ne_nil_iff.mp (h.ofGroup_ne_nil hclasses hp)
    obtain ⟨l, hl⟩ := e.owned
    exact ⟨l, (h.owners e he l).mp hl⟩
  · rintro ⟨l, hl⟩
    exact h.opened l hl

end

theorem loadInv_init : LoadInv classes p (fun _ => 0) (init : State L) where
  registry :=
    { only := fun _ h => absurd h not_mem_nil
      complete := ⟨fun _ h => absurd h not_mem_nil, fun _ h => absurd h not_mem_nil⟩
      owners := fun _ h => absurd h not_mem_nil
      opened := fun _ h => absurd h (lt_irrefl 0) }
  loader := fun _ _ h => absurd h (not_mem_none _)
  none := fun _ _ => rfl
  objects := rfl

variable [DecidableEq L]

/-- What a call does to the number of loads of each loader; a loader without loads stays without. -/
def countLoads (n : L → ℕ) : Event L → L → ℕ
  | .construct l _ | .loadLibrary l => update n l (n l + 1)
  | .unloadLibrary l => update n l (n l - 1)
  | .createClassObj .. | .deleteObj _ | .destruct _ => n

/-- The loads of each loader that are not undone by an unload. -/
def balance (es : List (Event L)) : L → ℕ := es.foldl countLoads fun _ => 0

theorem LoadedBy.loadLibrary (h : LoadedBy classes p n r) :
    LoadedBy classes p (update n l (n l + 1)) (r.loadLibrary p l classes) where
  only := fun q hq => (Registry.mem_opened_loadLibrary.mp hq).elim (h.only q) id
  complete := h.complete.loadLibrary fun q hq hne => absurd (h.only q hq) hne
  owners := by
    intro e he k
    unfold Registry.loadLibrary at he
    split_ifs at he with hopened
    · obtain ⟨e₀, he₀, rfl⟩ := OwnerTable.mem_attach.mp he
      rw [Owned.owners_attach, if_pos (h.group_eq e₀ he₀), Finset.mem_insert, h.owners e₀ he₀]
      by_cases hk : k = l <;> simp [hk]
    · rcases OwnerTable.mem_putAll.mp he with ⟨_, -, rfl⟩ | ⟨he, -⟩
      · have hzero : ¬0 < n k := fun hk => hopened (h.opened k hk)
        by_cases hk : k = l <;> simp [Owned.single, hk, hzero]
      · exact absurd (r.opened e he) ((h.group_eq e he).symm ▸ hopened)
  opened := fun _ _ => Registry.mem_opened_loadLibrary.mpr (.inr rfl)

theorem LoadedBy.unloadLibrary (h : LoadedBy classes p n r) (hclasses : classes p ≠ [])
    (hl : n l = 1) : LoadedBy classes p (update n l 0) (r.unloadLibrary p l) where
  only := fun q hq => h.only q (Registry.mem_opened_unloadLibrary.mp hq).1
  complete := h.complete.unloadLibrary
  owners := by
    intro e he k
    rw [Registry.factories_unloadLibrary (h.opened l (by omega)), OwnerTable.mem_detach] at he
    obtain ⟨e₀, he₀, -, -, howners⟩ := he
    rw [howners, if_pos (h.group_eq e₀ he₀), Finset.mem_erase, h.owners e₀ he₀]
    by_cases hk : k = l <;> simp [hk]
  opened := by
    intro k hk
    have hne : k ≠ l := by
      rintro rfl
      simp at hk
    rw [update_of_ne hne] at hk
    have hp := h.opened k hk
    exact (Registry.mem_opened_unloadLibrary_iff (h.owns hk) hne hp).mpr
      (h.ofGroup_ne_nil hclasses hp)

section

variable (hs : LoadInv classes p n s)

include hs

theorem LoadInv.of_update {m : ℕ} (hobjects : s'.objects = s.objects)
    (hloaders : s'.loaders = update s.loaders l (some ⟨p, m, 0⟩))
    (hregistry : LoadedBy classes p (update n l m) s'.registry) :
    LoadInv classes p (update n l m) s' := by
  refine ⟨hregistry, fun k => ?_, fun k => ?_, hobjects.trans hs.objects⟩ <;> rw [hloaders]
  · by_cases hk : k = l
    · subst hk
      simp
    · rw [update_of_ne hk, update_of_ne hk]
      exact hs.loader k
  · by_cases hk : k = l
    · subst hk
      simp
    · rw [update_of_ne hk, update_of_ne hk]
      exact hs.none k

theorem LoadInv.loadLibrary :
    LoadInv classes p (update n l (n l + 1)) (s.loadLibrary classes l ⟨p, n l, 0⟩) :=
  hs.of_update rfl rfl hs.registry.loadLibrary

variable (hclasses : classes p ≠ [])

include hclasses

theorem LoadInv.unloadLibrary :
    LoadInv classes p (update n l (n l - 1)) (s.unloadLibrary l ⟨p, n l, 0⟩) := by
  unfold State.unloadLibrary
  rw [if_neg (lt_irrefl 0)]
  dsimp only
  split_ifs with hzero hneg
  · have hl : n l = 1 := by omega
    rw [hl]
    exact hs.of_update rfl rfl (hs.registry.unloadLibrary hclasses hl)
  · have hl : n l = 0 := by omega
    rw [hl]
    refine hs.of_update rfl rfl (hs.registry.congr fun k => ?_)
    by_cases hk : k = l <;> simp [hk, hl]
  · have hl : ((n l : ℤ) - 1) = ((n l - 1 : ℕ) : ℤ) := by omega
    rw [hl]
    refine hs.of_update rfl rfl (hs.registry.congr fun k => ?_)
    by_cases hk : k = l
    · subst hk
      rw [update_self]
      omega
    · rw [update_of_ne hk]

theorem LoadInv.step {e : Event L} (he : LoadsOnly p e) (h : step classes s e = some s') :
    LoadInv classes p (countLoads n e) s' := by
  cases e with
  | construct l libraryPath =>
    obtain ⟨hnone, ⟨⟩⟩ := ite_none_right_eq_some.mp h
    obtain rfl : libraryPath = p := he
    have hzero : (n l : ℤ) = 0 := congrArg Nat.cast (hs.none l hnone)
    have hload := hs.loadLibrary (l := l)
    rwa [hzero] at hload
  | loadLibrary l =>
    obtain ⟨loader, hloader, rfl⟩ := map_eq_some_iff.mp h
    obtain rfl := hs.loader l loader hloader
    exact hs.loadLibrary
  | unloadLibrary l =>
    obtain ⟨loader, hloader, rfl⟩ := map_eq_some_iff.mp h
    obtain rfl := hs.loader l loader hloader
    exact hs.unloadLibrary hclasses
  | _ => exact absurd he not_false

theorem LoadInv.exec {es : List (Event L)} (hes : ∀ e ∈ es, LoadsOnly p e)
    (h : exec (ClassLoader.step classes) s es = some s') :
    LoadInv classes p (es.foldl countLoads n) s' := by
  induction es generalizing n s with
  | nil => exact some.inj h ▸ hs
  | cons e es ih =>
    obtain ⟨s₁, h₁, h₂⟩ := exec_cons_eq_some.mp h
    rw [forall_mem_cons] at hes
    exact ih (hs.step hclasses hes.1 h₁) hes.2 h₂

theorem LoadInv.isLibraryLoaded_eq_true_iff : s.isLibraryLoaded l ⟨p, n l, 0⟩ = true ↔
    ∃ k, 0 < n k := by
  rw [State.isLibraryLoaded, Registry.isLibraryLoaded_eq, Registry.isLibraryLoadedByAnybody,
    decide_eq_true_iff, hs.registry.opened_iff_exists hclasses]

/-- A loader without loads gets an object exactly if `CreateClassObj` loads the library. -/
theorem LoadInv.mem_objects_createClassObj_iff {id : ClassId} (hid : id ∈ classes p)
    (hl : n l = 0) :
    ⟨p, l⟩ ∈ (s.createClassObj classes l ⟨p, n l, 0⟩ id).objects ↔ ∀ k, n k = 0 := by
  have hloaded := hs.isLibraryLoaded_eq_true_iff (l := l) hclasses
  unfold State.createClassObj State.ensureLoaded
  split_ifs with hif
  · obtain ⟨k, hk⟩ := hloaded.mp hif
    refine iff_of_false (fun h => ?_) fun h => by simp [h k] at hk
    unfold State.makeObj at h
    split at h
    · simp [hs.objects] at h
    · next hcreate =>
      obtain ⟨e, he, -, -, howner⟩ := Registry.createClassObj_eq_some_iff.mp hcreate
      exact absurd ((hs.registry.owners e he l).mp howner) (by omega)
  · refine iff_of_true ?_ fun k => ?_
    · have hload := hs.loadLibrary (l := l)
      obtain ⟨e, he, hkey, hgroup⟩ := hload.registry.complete.registered p
        (Registry.mem_opened_loadLibrary.mpr (.inr rfl)) id hid
      have hcreate : (s.loadLibrary classes l ⟨p, n l, 0⟩).registry.createClassObj l id = some p :=
        Registry.createClassObj_eq_some_iff.mpr
          ⟨e, he, hkey, hgroup, (hload.registry.owners e he l).mpr (by simp)⟩
      rw [State.makeObj, hcreate]
      exact mem_cons_self
    · by_contra hk
      exact hif (hloaded.mpr ⟨k, pos_of_ne_zero hk⟩)

end

/-- **Whether a loader has loaded the library.** In runs of loads and unloads of one library, which
registers a class, `IsLibraryLoaded` tells whether the loader has more loads than effective unloads
exactly if this is so or no loader has. `CreateClassObj` on a loader that has unloaded the library
gets an object of a registered class exactly if no loader has loaded it. -/
theorem isLibraryLoaded_iff {es : List (Event L)} {loader : Loader} (hclasses : classes p ≠ [])
    (hes : ∀ e ∈ es, LoadsOnly p e) (h : exec (step classes) init es = some s)
    (hloader : loader ∈ s.loaders l) :
    ((s.isLibraryLoaded l loader = true ↔ 0 < balance es l) ↔
      0 < balance es l ∨ ∀ k, balance es k = 0) ∧
    (balance es l = 0 → ∀ id ∈ classes p,
      (⟨p, l⟩ ∈ (s.createClassObj classes l loader id).objects ↔ ∀ k, balance es k = 0)) := by
  have hs : LoadInv classes p (balance es) s := loadInv_init.exec hclasses hes h
  obtain rfl := hs.loader l loader hloader
  refine ⟨?_, fun hl id hid => hs.mem_objects_createClassObj_iff hclasses hid hl⟩
  rw [hs.isLibraryLoaded_eq_true_iff hclasses]
  constructor
  · intro hiff
    by_cases hl : 0 < balance es l
    · exact .inl hl
    · refine .inr fun k => ?_
      by_contra hk
      exact hl (hiff.mp ⟨k, pos_of_ne_zero hk⟩)
  · rintro (hl | hnone)
    · exact iff_of_true ⟨l, hl⟩ hl
    · exact iff_of_false (fun ⟨k, hk⟩ => by simp [hnone k] at hk) (by simp [hnone l])

/-- Two loaders that have both unloaded the library: for the first one it is loaded again. -/
theorem create_after_both_unload : ∃ s : State Bool, exec (step fun _ => [⟨"Base", "C"⟩]) init
    [.construct true "a", .construct false "a", .unloadLibrary true, .unloadLibrary false] =
      some s ∧
    s.isLibraryLoaded true ⟨"a", 0, 0⟩ = false ∧ ⟨"a", true⟩ ∈
      (s.createClassObj (fun _ => [⟨"Base", "C"⟩]) true ⟨"a", 0, 0⟩ ⟨"Base", "C"⟩).objects :=
  exists_exec_mono (P := fun s => ⟨"a", 0, 0⟩ ∈ s.loaders true) (by decide +kernel)
    fun s hs hloader => by
      have hiff := isLibraryLoaded_iff (p := "a") (by decide) (by simp [LoadsOnly]) hs hloader
      refine ⟨Bool.eq_false_iff.mpr fun hloaded => ?_,
        (hiff.2 (by decide) _ mem_cons_self).mpr (by decide)⟩
      exact absurd ((hiff.1.mpr (.inr (by decide))).mp hloaded) (by decide)

/-- A loader that has unloaded the library while another loader keeps it open: `IsLibraryLoaded`
answers yes, and `CreateClassObj` gets no object. -/
theorem no_object_after_unload : ∃ s : State Bool, exec (step fun _ => [⟨"Base", "C"⟩]) init
    [.construct true "a", .construct false "a", .unloadLibrary true] = some s ∧
    s.loaders true = some ⟨"a", 0, 0⟩ ∧ s.isLibraryLoaded true ⟨"a", 0, 0⟩ = true ∧
    (s.createClassObj (fun _ => [⟨"Base", "C"⟩]) true ⟨"a", 0, 0⟩ ⟨"Base", "C"⟩).objects = [] := by
  decide +kernel

end Cyber.ClassLoader
