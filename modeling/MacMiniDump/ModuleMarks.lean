import MacMiniDump.ModuleList

/-!
# Marks

Marking a module sets its flag and no lookup sees that. So after any sequence of calls the flags are
those of the modules that the lookups find in the list as it was (`infos_markAll`), and neither the
order of the calls nor how often each is made matters (`markAll_congr`).
-/

namespace MacMiniDump

namespace ModuleList

variable (modules : ModuleList)

/-- A sequence of calls. -/
def markAll (addresses : List UInt64) : ModuleList :=
  addresses.foldl (fun modules ip => (modules.markAsExecuting ip).2) modules

/-- Does a lookup of the address find the module? -/
def finds (address : UInt64) (mi : ModuleInfo) : Bool :=
  (modules.getModuleInfoForAddress address).map (·.loadAddress) == some mi.loadAddress

variable {modules}

theorem ext_moduleInfos {modules modules' : ModuleList}
    (h : modules.moduleInfos = modules'.moduleInfos) : modules = modules' := by
  cases modules
  cases modules'
  congr

/-- The entries are known by what iterating over them visits. -/
theorem ext_infos {modules modules' : ModuleList} (h : modules.infos = modules'.infos) :
    modules = modules' := by
  have hkey : ∀ m : ModuleList, m.moduleInfos = m.infos.map fun mi => (mi.loadAddress, mi) := by
    intro m
    rw [infos, List.map_map]
    refine (List.map_id _).symm.trans (List.map_congr_left fun i hi => ?_)
    exact Prod.ext (m.keyed i hi) rfl
  refine ext_moduleInfos ?_
  rw [hkey modules, hkey modules', h]

theorem isCodeInModule_setExecuting (key address : UInt64) (i : UInt64 × ModuleInfo) :
    (setExecuting key i).2.isCodeInModule address = i.2.isCodeInModule address := by
  unfold setExecuting
  split_ifs <;> rfl

/-- A lookup finds the same module after a mark, whether its flag is set by it or not. -/
theorem getModuleInfoForAddress_markAsExecuting (a b : UInt64) {β : Type*} (f : ModuleInfo → β)
    (hf : ∀ mi : ModuleInfo, f { mi with executing := true } = f mi) :
    ((modules.markAsExecuting a).2.getModuleInfoForAddress b).map f
      = (modules.getModuleInfoForAddress b).map f := by
  unfold markAsExecuting
  split
  · rfl
  rename_i found _
  have hset : ∀ i, f (setExecuting found.loadAddress i).2 = f i.2 := by
    intro i
    unfold setExecuting
    split_ifs
    · exact hf i.2
    · rfl
  unfold getModuleInfoForAddress
  simp only [candidate_map (setExecuting_fst found.loadAddress)]
  rcases candidate modules.moduleInfos b with _ | i
  · rfl
  simp only [Option.map_some, isCodeInModule_setExecuting]
  split_ifs
  · exact congrArg some (hset i)
  · rfl

theorem finds_markAsExecuting (a b : UInt64) (mi : ModuleInfo) :
    (modules.markAsExecuting a).2.finds b mi = modules.finds b mi := by
  unfold finds
  rw [getModuleInfoForAddress_markAsExecuting a b (·.loadAddress) fun _ => rfl]

/-- A call sets the flag of the module that the lookup finds. -/
theorem infos_markAsExecuting (a : UInt64) :
    (modules.markAsExecuting a).2.infos
      = modules.infos.map fun mi =>
        { mi with executing := mi.executing || modules.finds a mi } := by
  unfold markAsExecuting finds
  split
  · rename_i hnone
    rw [hnone]
    refine (List.map_id _).symm.trans (List.map_congr_left fun mi _ => ?_)
    simp
  · rename_i found hfound
    rw [hfound]
    simp only [infos, List.map_map]
    refine List.map_congr_left fun i hi => ?_
    have hkey := modules.keyed i hi
    simp only [Function.comp, setExecuting, Option.map_some, hkey]
    by_cases heq : i.2.loadAddress = found.loadAddress
    · simp [heq]
    · have hne : (found.loadAddress == i.2.loadAddress) = false := by
        simpa using fun h => heq h.symm
      simp [heq, hne]

/-- Calls set the flags of the modules that the lookups find before the first of them. -/
theorem infos_markAll :
    ∀ (modules : ModuleList) (addresses : List UInt64),
      (modules.markAll addresses).infos = modules.infos.map fun mi =>
        { mi with executing := mi.executing || addresses.any (modules.finds · mi) }
  | modules, [] => by simp [markAll]
  | modules, a :: addresses => by
    have hrest := infos_markAll (modules.markAsExecuting a).2 addresses
    rw [infos_markAsExecuting, List.map_map] at hrest
    refine hrest.trans (List.map_congr_left fun mi _ => ?_)
    have hsame : ∀ b, (modules.markAsExecuting a).2.finds b
        { mi with executing := mi.executing || modules.finds a mi } = modules.finds b mi :=
      fun b => finds_markAsExecuting a b mi
    simp only [Function.comp, hsame, List.any_cons, Bool.or_assoc]

theorem markAll_append (addresses addresses' : List UInt64) :
    modules.markAll (addresses ++ addresses') = (modules.markAll addresses).markAll addresses' :=
  List.foldl_append

/-- Which addresses are marked is all that counts. -/
theorem markAll_congr {addresses addresses' : List UInt64}
    (h : ∀ a, a ∈ addresses ↔ a ∈ addresses') :
    modules.markAll addresses = modules.markAll addresses' := by
  refine ext_infos ?_
  rw [infos_markAll, infos_markAll]
  refine List.map_congr_left fun mi _ => ?_
  have hany : addresses.any (modules.finds · mi) = addresses'.any (modules.finds · mi) := by
    rw [Bool.eq_iff_iff, List.any_eq_true, List.any_eq_true]
    simp only [h]
  rw [hany]

/-- What does not depend on the flags is found after any marks as before. -/
theorem getModuleInfoForAddress_markAll (b : UInt64) {β : Type*} (f : ModuleInfo → β)
    (hf : ∀ mi : ModuleInfo, f { mi with executing := true } = f mi) :
    ∀ (addresses : List UInt64) (modules : ModuleList),
      ((modules.markAll addresses).getModuleInfoForAddress b).map f
        = (modules.getModuleInfoForAddress b).map f
  | [], _ => rfl
  | a :: addresses, modules =>
    (getModuleInfoForAddress_markAll b f hf addresses (modules.markAsExecuting a).2).trans
      (getModuleInfoForAddress_markAsExecuting a b f hf)

end ModuleList

end MacMiniDump
