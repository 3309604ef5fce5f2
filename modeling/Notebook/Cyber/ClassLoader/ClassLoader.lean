import Notebook.Cyber.ClassLoader.ClassLoaderUtility
import Notebook.Interleaving.Run

/-!
# Class loaders

A `ClassLoader` (`class_loader/class_loader.cc`, `class_loader/class_loader.h`) is made for the path
of a library and counts how often it has loaded the library and how many of the objects that it has
created are alive. Its constructor loads the library, its destructor unloads it. `UnloadLibrary`
does nothing while objects are alive, and it reaches the registry only when the count of loads gets
to zero.

Loaders are given by their addresses, since the owners of a factory are pointers; after a loader is
destroyed another one can be made at its address. The deleter of an object would use its loader: the
model follows an object only as long as its loader exists.
-/

open Container Interleaving Function

namespace Cyber.ClassLoader

/-- The fields of a `ClassLoader`. The counts are `int`s in the source: `2 ^ 31` loads or live
objects of one loader are outside of the model. -/
structure Loader where
  libraryPath : String
  loadlibRefCount : ℤ
  classobjRefCount : ℤ
deriving DecidableEq, Repr

/-- A live object: the library of its class and the loader that has created it, which exists. -/
structure ClassObj (L : Type*) where
  library : String
  loader : L
deriving DecidableEq, Repr

/-- The registry, the loaders at their addresses and the live objects of these loaders. -/
structure State (L : Type*) where
  registry : Registry L
  loaders : L → Option Loader
  objects : List (ClassObj L)

variable {L : Type*}

/-- The state when the program starts. -/
def init : State L := ⟨.empty, fun _ => none, []⟩

/-- The calls. -/
inductive Event (L : Type*)
  | construct (l : L) (libraryPath : String)
  | loadLibrary (l : L)
  | unloadLibrary (l : L)
  | createClassObj (l : L) (id : ClassId)
  | deleteObj (obj : ClassObj L)
  | destruct (l : L)
deriving DecidableEq, Repr

section Step

variable [DecidableEq L] (classes : String → List ClassId) (s : State L) (l : L)
  (loader : Loader)

namespace State

/-- The fields of a loader change. -/
def setLoader : State L := { s with loaders := update s.loaders l (some loader) }

/-- `IsLibraryLoaded` -/
def isLibraryLoaded : Bool := s.registry.isLibraryLoaded loader.libraryPath l

/-- `LoadLibrary` -/
def loadLibrary : State L :=
  { s.setLoader l { loader with loadlibRefCount := loader.loadlibRefCount + 1 } with
    registry := s.registry.loadLibrary loader.libraryPath l classes }

/-- `UnloadLibrary`; its result is the count that it leaves. -/
def unloadLibrary : State L :=
  if loader.classobjRefCount > 0 then s
  else
    let loadlibRefCount := loader.loadlibRefCount - 1
    if loadlibRefCount = 0 then
      { s.setLoader l { loader with loadlibRefCount } with
        registry := s.registry.unloadLibrary loader.libraryPath l }
    else if loadlibRefCount < 0 then s.setLoader l { loader with loadlibRefCount := 0 }
    else s.setLoader l { loader with loadlibRefCount }

/-- The first part of `CreateClassObj`: the library is loaded if it is not. -/
def ensureLoaded : State L :=
  if s.isLibraryLoaded l loader then s else s.loadLibrary classes l loader

/-- The second part of `CreateClassObj`: an object is made, if the loader owns the factory. -/
def makeObj (id : ClassId) : State L :=
  match s.registry.createClassObj l id with
  | none => s
  | some library =>
    { s with
      loaders := update s.loaders l ((s.loaders l).map fun loader =>
        { loader with classobjRefCount := loader.classobjRefCount + 1 })
      objects := ⟨library, l⟩ :: s.objects }

/-- `CreateClassObj` -/
def createClassObj (id : ClassId) : State L := (s.ensureLoaded classes l loader).makeObj l id

/-- `OnClassObjDeleter` -/
def onClassObjDeleter (obj : ClassObj L) : State L :=
  { s.setLoader obj.loader { loader with classobjRefCount := loader.classobjRefCount - 1 } with
    objects := s.objects.erase obj }

/-- The loader is gone, and its objects are followed no further. -/
def removeLoader : State L :=
  { s with
    loaders := update s.loaders l none
    objects := s.objects.filter fun obj => obj.loader ≠ l }

end State

/-- One call. -/
def step (s : State L) : Event L → Option (State L)
  | .construct l libraryPath =>
    if s.loaders l = none then some (s.loadLibrary classes l ⟨libraryPath, 0, 0⟩) else none
  | .loadLibrary l => (s.loaders l).map (s.loadLibrary classes l)
  | .unloadLibrary l => (s.loaders l).map (s.unloadLibrary l)
  | .createClassObj l id => (s.loaders l).map fun loader => s.createClassObj classes l loader id
  | .deleteObj obj =>
    if obj ∈ s.objects then (s.loaders obj.loader).map fun loader => s.onClassObjDeleter loader obj
    else none
  | .destruct l => (s.loaders l).map fun loader => (s.unloadLibrary l loader).removeLoader l

end Step

end Cyber.ClassLoader
