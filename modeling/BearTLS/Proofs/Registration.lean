import BearTLS.Spec.Registration

/-! The installer and the runtime register the same: each is compared with what should be
registered, at either side of the limit of the arrays. -/

namespace BearTLS

open Terminated

theorem dll_nul_free (dir : WideString) : 0 ∉ dir.chars ++ wide "\\wm_https.dll" :=
  fun h => (List.mem_append.mp h).elim dir.nul_free (by decide)

theorem roots_nul_free (dir : WideString) : 0 ∉ dir.chars ++ wide "\\certs\\roots.pem" :=
  fun h => (List.mem_append.mp h).elim dir.nul_free (by decide)

section Limit

variable (dir : List WCHAR)

theorem length_dll : (dir ++ wide "\\wm_https.dll").length = dir.length + 13 := List.length_append

theorem length_roots : (dir ++ wide "\\certs\\roots.pem").length = dir.length + 16 :=
  List.length_append

variable {dir} {key : Option HKEY}

theorem registration_cut (h : MAX_PATH ≤ (dir ++ wide "\\certs\\roots.pem").length) :
    registration dir key = ⟨0, []⟩ :=
  if_neg fun hfit => absurd hfit.2 (Nat.not_lt.mpr h)

theorem registration_fits (h : (dir ++ wide "\\certs\\roots.pem").length < MAX_PATH) :
    registration dir key =
      match key with
      | none => ⟨0, []⟩
      | some _ => ⟨1, registeredPaths dir⟩ := by
  cases key with
  | none => exact if_neg fun hfit => absurd hfit.1 (by decide)
  | some key => exact if_pos ⟨rfl, h⟩

end Limit

section Installer

variable {m : WideArray} {s t : List WCHAR} {count : ℕ}

theorem copy_string_reads (m : WideArray) (h : s.length < count) :
    ∃ m', btCopyString m count s = (m', true) ∧ Reads m' s := by
  refine ⟨write m 0 (s ++ [0]), ?_, ?_⟩
  · rw [btCopyString, if_neg (by omega), copyFrom_fits (by omega)]
  · exact reads_write (s := []) (by simp)

theorem copy_string_cut (m : WideArray) (hc : 0 < count) (h : count ≤ s.length) :
    (btCopyString m count s).2 = false := by
  rw [btCopyString, if_neg (by omega)]
  exact copyFrom_cut hc (by omega)

theorem append_string_eq (hm : Reads m s) (hs : 0 ∉ s) (h : s.length < count) :
    btAppendString m count t = copyFrom count m s.length t := by
  rw [btAppendString, if_neg (by omega), hm.length_eq hs h]
  exact if_neg (by omega)

theorem append_string_reads (hm : Reads m s) (hs : 0 ∉ s) (h : (s ++ t).length < count) :
    ∃ m', btAppendString m count t = (m', true) ∧ Reads m' (s ++ t) := by
  rw [List.length_append] at h
  refine ⟨write m s.length (t ++ [0]), ?_, hm.append⟩
  rw [append_string_eq hm hs (by omega), copyFrom_fits h]

theorem append_string_cut (hm : Reads m s) (hs : 0 ∉ s) (hroom : s.length < count)
    (h : count ≤ (s ++ t).length) : (btAppendString m count t).2 = false := by
  rw [append_string_eq hm hs hroom]
  exact copyFrom_cut hroom (by rwa [← List.length_append])

theorem set_reg_string_eq (values : List RegValue) (key : HKEY) (name : String)
    (value : List WCHAR) :
    btSetRegString values key name value = regSetValueEx values name value :=
  if_neg key.opened

theorem write_registry_exact (create : List WCHAR → Option HKEY) (dir : WideString)
    (hne : dir.chars ≠ []) (a b : WideArray) :
    btWriteRegistry create (some dir) a b =
      registration dir.chars (create (wide "Software\\BearTLS")) := by
  have hnul := dir.nul_free
  unfold btWriteRegistry
  simp only [if_neg hne]
  -- the copy, the name of the library and the name of the roots run out of room in this order
  rcases Nat.lt_or_ge dir.chars.length MAX_PATH with hdir | hdir
  · obtain ⟨a₁, ha₁, reads₁⟩ := copy_string_reads a hdir
    obtain ⟨b₁, hb₁, reads₂⟩ := copy_string_reads b hdir
    simp only [ha₁, hb₁]
    rcases Nat.lt_or_ge (dir.chars ++ wide "\\wm_https.dll").length MAX_PATH with hdll | hdll
    · obtain ⟨a₂, ha₂, reads₃⟩ := append_string_reads reads₁ hnul hdll
      simp only [ha₂]
      rcases Nat.lt_or_ge (dir.chars ++ wide "\\certs\\roots.pem").length MAX_PATH
        with hroots | hroots
      · obtain ⟨b₂, hb₂, reads₄⟩ := append_string_reads reads₂ hnul hroots
        simp only [hb₂, reads₃.chars_eq (dll_nul_free dir) hdll,
          reads₄.chars_eq (roots_nul_free dir) hroots, set_reg_string_eq]
        rw [registration_fits hroots]
        cases create (wide "Software\\BearTLS") <;> rfl
      · rw [registration_cut hroots]
        simp only [append_string_cut reads₂ hnul hdir hroots]
        rfl
    · rw [registration_cut (by rw [length_dll] at hdll; rw [length_roots]; omega)]
      simp only [append_string_cut reads₁ hnul hdir hdll]
      rfl
  · rw [registration_cut (by rw [length_roots]; omega)]
    simp only [copy_string_cut a (by decide) hdir]
    rfl

end Installer

section Runtime

variable {getModuleFileName : WideArray → ℕ → ℕ × WideArray} {dir file : List WCHAR}
  {m : WideArray} {s t : List WCHAR} {count : ℕ}

theorem dll_path_reads (hget : NamesModule s getModuleFileName) (hne : s ≠ []) (m : WideArray)
    (h : s.length < count) :
    ∃ m', wmBearTlsGetDllPath getModuleFileName m count = (m', true) ∧ Reads m' s := by
  have hpos : 0 < s.length := List.length_pos_of_ne_nil hne
  refine ⟨_, ?_, hget.reads (Function.update m 0 0) count h⟩
  rw [wmBearTlsGetDllPath, if_neg (by omega)]
  exact if_neg (by rw [hget.length_eq _ count h]; omega)

theorem dll_path_cut (hget : NamesModule s getModuleFileName) (m : WideArray)
    (h : count ≤ s.length) : (wmBearTlsGetDllPath getModuleFileName m count).2 = false := by
  rw [wmBearTlsGetDllPath]
  split_ifs with hc
  · rfl
  · show (if _ then _ else _ : WideArray × Bool).2 = false
    rw [if_pos (.inr (hget.cut _ count h))]

/-- The separator in front of the file name is the last one, whatever the directory holds. -/
theorem install_dir_reads (hget : NamesModule (dir ++ 92 :: file) getModuleFileName)
    (hnul : 0 ∉ dir ++ 92 :: file) (hfile : 92 ∉ file ∧ 47 ∉ file) (m : WideArray)
    (h : (dir ++ 92 :: file).length < count) :
    ∃ m', wmBearTlsGetInstallDir getModuleFileName m count = (m', true) ∧ Reads m' dir := by
  obtain ⟨p, hp, hreads⟩ := dll_path_reads hget (by simp) m h
  have hlast : wmBearTlsFindLastSlash p count = some dir.length := by
    apply hreads.last_eq hnul (by decide)
    · intro c hc
      have hback : c ≠ 92 := fun h => hfile.1 (h ▸ hc)
      have hslash : c ≠ 47 := fun h => hfile.2 (h ▸ hc)
      simp [hback, hslash]
    · rw [List.length_append] at h
      omega
  refine ⟨Function.update p dir.length 0, ?_, hreads.cut⟩
  simp only [wmBearTlsGetInstallDir, hp, hlast]
  rfl

theorem append_path_reads (hm : Reads m s) (hs : 0 ∉ s) (h : (s ++ t).length < count) :
    ∃ m', wmBearTlsAppendPath m count t = (m', true) ∧ Reads m' (s ++ t) := by
  rw [List.length_append] at h
  refine ⟨write m s.length (t ++ [0]), ?_, hm.append⟩
  rw [wmBearTlsAppendPath, hm.length_eq hs (by omega)]
  exact if_neg (by omega)

theorem append_path_cut (hm : Reads m s) (hs : 0 ∉ s) (hroom : s.length < count)
    (h : count ≤ (s ++ t).length) : (wmBearTlsAppendPath m count t).2 = false := by
  rw [List.length_append] at h
  rw [wmBearTlsAppendPath, hm.length_eq hs hroom, if_pos (by omega)]

theorem roots_path_eq (hget : NamesModule (dir ++ 92 :: file) getModuleFileName)
    (hnul : 0 ∉ dir ++ 92 :: file) (hfile : 92 ∉ file ∧ 47 ∉ file) (m : WideArray)
    (h : (dir ++ 92 :: file).length < count) :
    ∃ p, Reads p dir ∧ wmBearTlsGetRootsPath getModuleFileName m count =
      wmBearTlsAppendPath p count (wide "\\certs\\roots.pem") := by
  obtain ⟨p, hp, hreads⟩ := install_dir_reads hget hnul hfile m h
  refine ⟨p, hreads, ?_⟩
  rw [wmBearTlsGetRootsPath, hp]
  rfl

theorem register_runtime_exact (create : List WCHAR → Option HKEY) (dir : WideString)
    (hget : NamesModule (dir.chars ++ wide "\\wm_https.dll") getModuleFileName)
    (a b c : WideArray) :
    wmBearTlsRegisterRuntime getModuleFileName create a b c =
      registration dir.chars (create (wide "Software\\BearTLS")) := by
  have hfile : 92 ∉ wide "wm_https.dll" ∧ 47 ∉ wide "wm_https.dll" := by decide
  have hnul := dll_nul_free dir
  unfold wmBearTlsRegisterRuntime
  rcases Nat.lt_or_ge (dir.chars ++ wide "\\wm_https.dll").length MAX_PATH with hdll | hdll
  · have hlen : dir.chars.length < MAX_PATH := by
      rw [length_dll] at hdll
      omega
    obtain ⟨a', ha, hreads⟩ := dll_path_reads hget (by simp [wide]) a hdll
    obtain ⟨b', hb, hdir⟩ := install_dir_reads hget hnul hfile b hdll
    obtain ⟨p, hstart, hp⟩ := roots_path_eq hget hnul hfile c hdll
    simp only [ha, hb, hp]
    rcases Nat.lt_or_ge (dir.chars ++ wide "\\certs\\roots.pem").length MAX_PATH
      with hroots | hroots
    · obtain ⟨c', hc, hpath⟩ := append_path_reads hstart dir.nul_free hroots
      simp only [hc, hreads.chars_eq hnul hdll, hpath.chars_eq (roots_nul_free dir) hroots,
        hdir.chars_eq dir.nul_free hlen]
      rw [registration_fits hroots]
      cases create (wide "Software\\BearTLS") <;> rfl
    · rw [registration_cut hroots]
      simp only [append_path_cut hstart dir.nul_free hlen hroots]
      rfl
  · rw [registration_cut (by rw [length_dll] at hdll; rw [length_roots]; omega)]
    simp only [dll_path_cut hget a hdll]
    rfl

end Runtime

section Agreement

/-- The path with its terminator, or as much of it as there is room for. -/
def moduleFileName (path : List WCHAR) (out : WideArray) (count : ℕ) : ℕ × WideArray :=
  if path.length < count then (path.length, write out 0 (path ++ [0]))
  else (count, write out 0 (path.take count))

theorem names_module_file_name (path : List WCHAR) : NamesModule path (moduleFileName path) where
  length_eq out count h := by rw [moduleFileName, if_pos h]
  reads out count h := by
    rw [moduleFileName, if_pos h]
    exact reads_write (s := []) (by simp)
  cut out count h := by
    rw [moduleFileName, if_neg (Nat.not_lt.mpr h)]

def programFiles : WideString := ⟨wide "\\Program Files/BearTLS", by decide⟩

/-- At every length of the directory, on either side of the limit, whatever the arrays held. -/
theorem registrations_agree (dir : WideString) (hne : dir.chars ≠ [])
    (getModuleFileName : WideArray → ℕ → ℕ × WideArray)
    (hget : NamesModule (dir.chars ++ wide "\\wm_https.dll") getModuleFileName)
    (create create' : List WCHAR → Option HKEY)
    (hsame : (create (wide "Software\\BearTLS")).isSome =
      (create' (wide "Software\\BearTLS")).isSome)
    (dllPath rootsPath dllPath' installDir' rootsPath' : WideArray) :
    let installed := btWriteRegistry create (some dir) dllPath rootsPath
    let registered :=
      wmBearTlsRegisterRuntime getModuleFileName create' dllPath' installDir' rootsPath'
    installed.ret = registered.ret ∧ (installed.ret = 0 ∨ installed.ret = 1) ∧
      (installed.ret = 1 → installed.values = registered.values ∧
        registered.values = registeredPaths dir.chars) := by
  intro installed registered
  have hinst : installed = registration dir.chars (create (wide "Software\\BearTLS")) :=
    write_registry_exact create dir hne dllPath rootsPath
  have hreg : registered = registration dir.chars (create (wide "Software\\BearTLS")) := by
    rw [registration, hsame]
    exact register_runtime_exact create' dir hget dllPath' installDir' rootsPath'
  rw [hinst, hreg]
  unfold registration
  split_ifs with hfit
  · exact ⟨rfl, .inr rfl, fun _ => ⟨rfl, rfl⟩⟩
  · exact ⟨rfl, .inl rfl, fun h => absurd h (by decide)⟩

theorem registrations_agree_program_files :
    let create : List WCHAR → Option HKEY := fun _ => some ⟨1, by decide⟩
    let dll := programFiles.chars ++ wide "\\wm_https.dll"
    let installed := btWriteRegistry create (some programFiles) (fun _ => 7) (fun _ => 7)
    let registered :=
      wmBearTlsRegisterRuntime (moduleFileName dll) create (fun _ => 1) (fun _ => 2) (fun _ => 3)
    installed.ret = 1 ∧ installed.ret = registered.ret ∧
      (installed.ret = 0 ∨ installed.ret = 1) ∧
      (installed.ret = 1 → installed.values = registered.values ∧
        registered.values = registeredPaths programFiles.chars) :=
  ⟨congrArg Registered.ret
      ((write_registry_exact _ programFiles (by decide) _ _).trans (if_pos (by decide))),
    registrations_agree programFiles (by decide) _ (names_module_file_name _) _ _ rfl _ _ _ _ _⟩

end Agreement

end BearTLS
