import Notebook.Cyber.ClassLoader.ClassLoader

/-!
# Libraries of live objects

A library should stay open while an object of one of its classes is alive. A loader with live
objects does not unload, so it owns all factories of the library that are in the map, and the
library is closed only when none is there. But a factory is also lost when another library registers
a class under the same name. When all factories of a library are lost, any loader of the library
closes it with its last `UnloadLibrary`.
-/

open Container Interleaving Function List Option

namespace Cyber.ClassLoader

variable {L : Type*}

/-- The libraries of the live objects whose loaders exist are open. -/
def Opened (s : State L) : Prop :=
  ∀ obj ∈ s.objects, obj.library ∈ s.registry.openedLibraries

/-- If the loader unloads its library, and objects of the library are alive, the library has a class
factory in the map. -/
def Loader.KeepsFactory (s : State L) (loader : Loader) : Prop :=
  loader.classobjRefCount ≤ 0 → loader.loadlibRefCount = 1 →
    (∃ obj ∈ s.objects, obj.library = loader.libraryPath) →
    s.registry.factories.ofGroup loader.libraryPath ≠ []
deriving Decidable

/-- A call of `UnloadLibrary`, or of the destructor, finds a factory. -/
def KeepsFactory (s : State L) : Event L → Prop
  | .unloadLibrary l | .destruct l => ∀ loader ∈ s.loaders l, loader.KeepsFactory s
  | _ => True

/-- The count of live objects that a loader has; there are none at an address without a loader. -/
def State.classobjRefCount (s : State L) (l : L) : ℤ := (s.loaders l).elim 0 Loader.classobjRefCount

theorem State.classobjRefCount_of_mem {s : State L} {l : L} {loader : Loader}
    (hloader : loader ∈ s.loaders l) : s.classobjRefCount l = loader.classobjRefCount := by
  rw [State.classobjRefCount, mem_def.mp hloader]
  rfl

variable [DecidableEq L]

/-- The number of live objects of a loader. -/
def State.liveObjs (s : State L) (l : L) : ℕ := s.objects.countP fun obj => obj.loader = l

/-- The loaders count their live objects and own the factories of the libraries of these. -/
structure Inv (s : State L) : Prop where
  count : ∀ l, s.classobjRefCount l = s.liveObjs l
  owns : ∀ obj ∈ s.objects, s.registry.factories.Owns obj.loader obj.library
  opened : Opened s

theorem inv_init : Inv (init : State L) where
  count := fun _ => rfl
  owns := fun _ h => absurd h not_mem_nil
  opened := fun _ h => absurd h not_mem_nil

variable {s s' : State L} {l : L} {loader : Loader} {classes : String → List ClassId}

theorem Inv.count_of_mem (hs : Inv s) (hloader : loader ∈ s.loaders l) :
    loader.classobjRefCount = s.liveObjs l :=
  (State.classobjRefCount_of_mem hloader).symm.trans (hs.count l)

theorem loader_ne_of_liveObjs (h : s.liveObjs l = 0) : ∀ obj ∈ s.objects, obj.loader ≠ l :=
  fun obj hobj hl => countP_eq_zero.mp h obj hobj (decide_eq_true hl)

theorem Inv.of_update {v : Option Loader} (hs : Inv s)
    (hloaders : s'.loaders = update s.loaders l v)
    (hcount : v.elim 0 Loader.classobjRefCount = s'.liveObjs l)
    (hothers : ∀ k, k ≠ l → s'.liveObjs k = s.liveObjs k)
    (howns : ∀ obj ∈ s'.objects, s'.registry.factories.Owns obj.loader obj.library)
    (hopened : Opened s') : Inv s' := by
  refine ⟨fun k => ?_, howns, hopened⟩
  by_cases hk : k = l
  · subst hk
    rw [State.classobjRefCount, hloaders, update_self, hcount]
  · rw [State.classobjRefCount, hloaders, update_of_ne hk, hothers k hk]
    exact hs.count k

theorem Inv.loadLibrary (hs : Inv s) (hcount : s.classobjRefCount l = loader.classobjRefCount) :
    Inv (s.loadLibrary classes l loader) := by
  refine hs.of_update rfl (hcount.symm.trans (hs.count l)) (fun _ _ => rfl) ?_ ?_
  · exact fun obj hobj => Registry.owns_of_loadLibrary (hs.owns obj hobj) (hs.opened obj hobj)
  · exact fun obj hobj => Registry.mem_opened_loadLibrary.mpr (.inl (hs.opened obj hobj))

theorem Inv.unloadLibrary (hs : Inv s) (hloader : loader ∈ s.loaders l)
    (hkeeps : loader.KeepsFactory s) : Inv (s.unloadLibrary l loader) := by
  have hcount := hs.count_of_mem hloader
  unfold State.unloadLibrary
  split
  · exact hs
  · next hobjs =>
    have hne : ∀ obj ∈ s.objects, obj.loader ≠ l := loader_ne_of_liveObjs (by omega)
    dsimp only
    split_ifs with hzero hneg
    · refine hs.of_update rfl hcount (fun _ _ => rfl) (fun obj hobj => ?_) fun obj hobj => ?_
      · exact Registry.owns_of_unloadLibrary (hs.owns obj hobj) (hne obj hobj)
      · by_cases hlibrary : obj.library = loader.libraryPath
        · have howns := hs.owns obj hobj
          have hopened := hs.opened obj hobj
          rw [hlibrary] at howns hopened ⊢
          refine (Registry.mem_opened_unloadLibrary_iff howns (hne obj hobj) hopened).mpr ?_
          exact hkeeps (not_lt.mp hobjs) (by omega) ⟨obj, hobj, hlibrary⟩
        · exact Registry.mem_opened_unloadLibrary.mpr
            ⟨hs.opened obj hobj, fun h => absurd h hlibrary⟩
    · exact hs.of_update rfl hcount (fun _ _ => rfl) hs.owns hs.opened
    · exact hs.of_update rfl hcount (fun _ _ => rfl) hs.owns hs.opened

theorem Inv.ensureLoaded (hs : Inv s) (hloader : loader ∈ s.loaders l) :
    Inv (s.ensureLoaded classes l loader) := by
  unfold State.ensureLoaded
  split_ifs
  · exact hs
  · exact hs.loadLibrary (State.classobjRefCount_of_mem hloader)

theorem State.exists_loader_ensureLoaded (classes : String → List ClassId)
    (hloader : loader ∈ s.loaders l) :
    ∃ loader', (s.ensureLoaded classes l loader).loaders l = some loader' := by
  unfold State.ensureLoaded
  split_ifs
  · exact ⟨loader, hloader⟩
  · exact ⟨_, update_self ..⟩

theorem Inv.makeObj {id : ClassId} (hs : Inv s) (hloader : loader ∈ s.loaders l) :
    Inv (s.makeObj l id) := by
  have hcount := hs.count_of_mem hloader
  unfold State.makeObj
  split
  · exact hs
  · next library hcreate =>
    obtain ⟨howns, hopened⟩ := Registry.owns_of_createClassObj hcreate
    refine hs.of_update rfl ?_ (fun k hk => ?_) (forall_mem_cons.mpr ⟨howns, hs.owns⟩)
      (forall_mem_cons.mpr ⟨hopened, hs.opened⟩)
    · rw [mem_def.mp hloader]
      simpa [State.liveObjs] using hcount
    · exact countP_cons_of_neg (by simpa using Ne.symm hk)

theorem Inv.onClassObjDeleter {obj : ClassObj L} (hs : Inv s) (hobj : obj ∈ s.objects)
    (hloader : loader ∈ s.loaders obj.loader) : Inv (s.onClassObjDeleter loader obj) := by
  have hcount := hs.count_of_mem hloader
  have hsub : ∀ obj' ∈ s.objects.erase obj, obj' ∈ s.objects := fun _ => mem_of_mem_erase
  refine hs.of_update rfl ?_ (fun k hk => ?_) (fun obj' hobj' => hs.owns obj' (hsub obj' hobj'))
    fun obj' hobj' => hs.opened obj' (hsub obj' hobj')
  · have hpos : 0 < s.liveObjs obj.loader := countP_pos_iff.mpr ⟨obj, hobj, decide_eq_true rfl⟩
    have herase : (s.onClassObjDeleter loader obj).liveObjs obj.loader =
        s.liveObjs obj.loader - 1 := by
      simp [State.onClassObjDeleter, State.liveObjs, countP_erase, hobj]
    rw [herase]
    simp only [elim_some, hcount]
    omega
  · simp [State.onClassObjDeleter, State.liveObjs, countP_erase, Ne.symm hk]

theorem Inv.removeLoader (hs : Inv s) : Inv (s.removeLoader l) := by
  have hsub : ∀ obj ∈ s.objects.filter fun obj => obj.loader ≠ l, obj ∈ s.objects :=
    fun _ => mem_of_mem_filter
  refine hs.of_update rfl ?_ (fun k hk => ?_) (fun obj hobj => hs.owns obj (hsub obj hobj))
    fun obj hobj => hs.opened obj (hsub obj hobj)
  · simp [State.removeLoader, State.liveObjs, countP_filter]
  · simp only [State.removeLoader, State.liveObjs, countP_filter]
    refine countP_congr fun obj _ => ?_
    simp only [ne_eq, decide_not, Bool.and_eq_true, decide_eq_true_eq, Bool.not_eq_eq_eq_not,
      Bool.not_true, decide_eq_false_iff_not, and_iff_left_iff_imp]
    rintro rfl
    exact hk

variable {e : Event L}

/-- A library with live objects stays open while an unload finds a factory of it. -/
theorem Inv.step (hs : Inv s) (hkeeps : KeepsFactory s e)
    (h : step classes s e = some s') : Inv s' := by
  cases e with
  | construct l libraryPath =>
    obtain ⟨hnone, ⟨⟩⟩ := ite_none_right_eq_some.mp h
    exact hs.loadLibrary (by rw [State.classobjRefCount, hnone]; rfl)
  | loadLibrary l =>
    obtain ⟨loader, hloader, rfl⟩ := map_eq_some_iff.mp h
    exact hs.loadLibrary (State.classobjRefCount_of_mem hloader)
  | unloadLibrary l =>
    obtain ⟨loader, hloader, rfl⟩ := map_eq_some_iff.mp h
    exact hs.unloadLibrary hloader (hkeeps loader hloader)
  | createClassObj l id =>
    obtain ⟨loader, hloader, rfl⟩ := map_eq_some_iff.mp h
    obtain ⟨loader', hloader'⟩ := State.exists_loader_ensureLoaded classes hloader
    exact (hs.ensureLoaded hloader).makeObj hloader'
  | deleteObj obj =>
    obtain ⟨hobj, h⟩ := ite_none_right_eq_some.mp h
    obtain ⟨loader, hloader, rfl⟩ := map_eq_some_iff.mp h
    exact hs.onClassObjDeleter hobj hloader
  | destruct l =>
    obtain ⟨loader, hloader, rfl⟩ := map_eq_some_iff.mp h
    exact (hs.unloadLibrary hloader (hkeeps loader hloader)).removeLoader

/-- A library without factories is closed under the objects of other loaders. -/
theorem Inv.exists_not_opened (hs : Inv s) (hloader : loader ∈ s.loaders l)
    (hkeeps : ¬loader.KeepsFactory s) : ∃ obj ∈ (s.unloadLibrary l loader).objects,
      obj.loader ≠ l ∧ obj.library ∉ (s.unloadLibrary l loader).registry.openedLibraries := by
  simp only [Loader.KeepsFactory, Classical.not_imp, not_not] at hkeeps
  obtain ⟨hobjs, hlast, ⟨obj, hobj, hlibrary⟩, hnone⟩ := hkeeps
  have hcount := hs.count_of_mem hloader
  have hne : obj.loader ≠ l := loader_ne_of_liveObjs (by omega) obj hobj
  have howns := hs.owns obj hobj
  have hopened := hs.opened obj hobj
  have hunload : s.unloadLibrary l loader =
      { s.setLoader l { loader with loadlibRefCount := loader.loadlibRefCount - 1 } with
        registry := s.registry.unloadLibrary loader.libraryPath l } := by
    simp [State.unloadLibrary, not_lt.mpr hobjs, hlast]
  rw [hunload]
  refine ⟨obj, hobj, hne, ?_⟩
  rw [hlibrary] at howns hopened ⊢
  exact fun h => (Registry.mem_opened_unloadLibrary_iff howns hne hopened).mp h hnone

theorem Inv.not_opened (hs : Inv s) (hkeeps : ¬KeepsFactory s e)
    (h : ClassLoader.step classes s e = some s') : ¬Opened s' := by
  cases e with
  | unloadLibrary l =>
    obtain ⟨loader, hloader, rfl⟩ := map_eq_some_iff.mp h
    have hkeeps : ¬loader.KeepsFactory s := fun hl => hkeeps fun _ h' =>
      mem_unique hloader h' ▸ hl
    obtain ⟨obj, hobj, -, hclosed⟩ := hs.exists_not_opened hloader hkeeps
    exact fun hopened => hclosed (hopened obj hobj)
  | destruct l =>
    obtain ⟨loader, hloader, rfl⟩ := map_eq_some_iff.mp h
    have hkeeps : ¬loader.KeepsFactory s := fun hl => hkeeps fun _ h' =>
      mem_unique hloader h' ▸ hl
    obtain ⟨obj, hobj, hne, hclosed⟩ := hs.exists_not_opened hloader hkeeps
    exact fun hopened => hclosed
      (hopened obj (mem_filter.mpr ⟨hobj, decide_eq_true hne⟩))
  | _ => exact absurd trivial hkeeps

/-- **Libraries of live objects are open.** The library of every live object is open at every moment
of a run, exactly if each library has a class factory in the map whenever a loader without objects
unloads it for the last time while objects of the library are alive. -/
theorem opened_iff {es : List (Event L)} (h : exec (step classes) init es = some s) :
    (∀ es', es' <+: es → ∀ s', exec (step classes) init es' = some s' → Opened s') ↔
      AllSteps (step classes) KeepsFactory init es :=
  forall_prefix_iff_allSteps Inv (fun _ hs => hs.opened) (fun _ _ _ hs hkeeps h => hs.step hkeeps h)
    (fun _ _ _ hs hkeeps h => hs.not_opened hkeeps h) inv_init h

instance (s : State L) : (e : Event L) → Decidable (KeepsFactory s e)
  | .unloadLibrary l | .destruct l =>
    inferInstanceAs (Decidable (∀ loader ∈ s.loaders l, loader.KeepsFactory s))
  | .construct .. | .loadLibrary _ | .createClassObj .. | .deleteObj _ => .isTrue trivial

/-- Two libraries, each with a class of its own. -/
theorem opened_two_libraries : ∃ s : State (Fin 3), exec
    (step fun path => [⟨"Base", path⟩]) init
    [.construct 0 "a", .createClassObj 0 ⟨"Base", "a"⟩, .construct 1 "b", .construct 2 "a",
      .unloadLibrary 2] = some s ∧
    s.objects = [⟨"a", 0⟩] ∧ Opened s :=
  exists_exec_mono (P := fun s => s.objects = [⟨"a", 0⟩]) (by decide +kernel) fun s hs hobjects =>
    ⟨hobjects, (opened_iff hs).mpr (by decide +kernel) _ prefix_rfl s hs⟩

/-- Two libraries with a class of the same name: the second one takes the only factory of the first
one, which is then closed by another loader while the object of the first loader is alive. -/
theorem closed_under_object : ∃ s : State (Fin 3), exec
    (step fun _ => [⟨"Base", "C"⟩]) init
    [.construct 0 "a", .createClassObj 0 ⟨"Base", "C"⟩, .construct 1 "b", .construct 2 "a",
      .unloadLibrary 2] = some s ∧
    s.objects = [⟨"a", 0⟩] ∧ s.registry.openedLibraries = ["b"] := by
  decide +kernel

/-! ### Libraries with different class names -/

/-- No factory is lost, and every live object has a class. -/
structure Names (classes : String → List ClassId) (s : State L) : Prop where
  complete : s.registry.Complete classes
  nonempty : ∀ obj ∈ s.objects, classes obj.library ≠ []

theorem Names.unloadLibrary (hs : Names classes s) : Names classes (s.unloadLibrary l loader) := by
  unfold State.unloadLibrary
  dsimp only
  split_ifs
  · exact hs
  · exact ⟨hs.complete.unloadLibrary, hs.nonempty⟩
  · exact ⟨hs.complete, hs.nonempty⟩
  · exact ⟨hs.complete, hs.nonempty⟩

theorem Names.makeObj {id : ClassId} (hs : Names classes s) : Names classes (s.makeObj l id) := by
  unfold State.makeObj
  split
  · exact hs
  · next hcreate =>
    obtain ⟨e, he, -, rfl, -⟩ := Registry.createClassObj_eq_some_iff.mp hcreate
    exact ⟨hs.complete, forall_mem_cons.mpr
      ⟨ne_nil_of_mem (hs.complete.listed e he), hs.nonempty⟩⟩

section Disjoint

variable (hdisjoint : ∀ p q, p ≠ q → (classes p).Disjoint (classes q))
include hdisjoint

theorem Names.loadLibrary (hs : Names classes s) :
    Names classes (s.loadLibrary classes l loader) :=
  ⟨hs.complete.loadLibrary fun q _ hq => hdisjoint q _ hq, hs.nonempty⟩

theorem Names.step (hs : Names classes s)
    (h : ClassLoader.step classes s e = some s') : Names classes s' := by
  cases e with
  | construct l libraryPath =>
    obtain ⟨-, ⟨⟩⟩ := ite_none_right_eq_some.mp h
    exact hs.loadLibrary hdisjoint
  | loadLibrary l =>
    obtain ⟨loader, -, rfl⟩ := map_eq_some_iff.mp h
    exact hs.loadLibrary hdisjoint
  | unloadLibrary l =>
    obtain ⟨loader, -, rfl⟩ := map_eq_some_iff.mp h
    exact hs.unloadLibrary
  | createClassObj l id =>
    obtain ⟨loader, -, rfl⟩ := map_eq_some_iff.mp h
    refine Names.makeObj ?_
    unfold State.ensureLoaded
    split_ifs
    · exact hs
    · exact hs.loadLibrary hdisjoint
  | deleteObj obj =>
    obtain ⟨hobj, h⟩ := ite_none_right_eq_some.mp h
    obtain ⟨loader, -, rfl⟩ := map_eq_some_iff.mp h
    exact ⟨hs.complete, fun obj' hobj' => hs.nonempty obj' (mem_of_mem_erase hobj')⟩
  | destruct l =>
    obtain ⟨loader, -, rfl⟩ := map_eq_some_iff.mp h
    have hunload : Names classes (s.unloadLibrary l loader) := hs.unloadLibrary
    exact ⟨hunload.complete, fun obj hobj => hunload.nonempty obj (mem_of_mem_filter hobj)⟩

end Disjoint

end Cyber.ClassLoader
