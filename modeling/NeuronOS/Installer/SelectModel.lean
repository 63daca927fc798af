import NeuronOS.Shared.CString

set_option autoImplicit false

namespace NeuronOS.Installer

open NeuronOS.Shared

-- One MODEL_CATALOG line, as `IFS='|' read -r name params size_mb min_ram_mb url desc` splits it.
structure CatalogEntry where
  name : List Char
  params : List Char
  sizeMb : Int
  minRamMb : Int
  url : List Char
  desc : List Char
  deriving DecidableEq

def modelCatalog : List CatalogEntry :=
  [⟨"Falcon3-10B-1.58bit".toList, "10B".toList, 3500, 7168,
      "https://huggingface.co/Neuron-OS/models/resolve/main/falcon3-10b-instruct-1.58bit-i2_s.gguf".toList,
      "Falcon3 10B Instruct — maximum agent intelligence".toList⟩,
    ⟨"Falcon3-7B-1.58bit".toList, "7B".toList, 2500, 5120,
      "https://huggingface.co/Neuron-OS/models/resolve/main/falcon3-7b-instruct-1.58bit-i2_s.gguf".toList,
      "Falcon3 7B Instruct — excellent reasoning".toList⟩,
    ⟨"Falcon3-3B-1.58bit".toList, "3B".toList, 1100, 3072,
      "https://huggingface.co/Neuron-OS/models/resolve/main/falcon3-3b-instruct-1.58bit-i2_s.gguf".toList,
      "Falcon3 3B Instruct — balanced quality/speed".toList⟩,
    ⟨"BitNet-2B".toList, "2B".toList, 780, 2048,
      "https://huggingface.co/microsoft/bitnet-b1.58-2B-4T-gguf/resolve/main/ggml-model-i2_s.gguf".toList,
      "BitNet b1.58 2B — fast edge inference".toList⟩,
    ⟨"Falcon3-1B-1.58bit".toList, "1B".toList, 400, 1024,
      "https://huggingface.co/Neuron-OS/models/resolve/main/falcon3-1b-instruct-1.58bit-i2_s.gguf".toList,
      "Falcon3 1B Instruct — ultralight IoT".toList⟩]

def fallbackModelUrl : List Char :=
  "https://huggingface.co/microsoft/bitnet-b1.58-2B-4T-gguf/resolve/main/ggml-model-i2_s.gguf".toList

def fallbackModelFile : List Char :=
  "ggml-model-i2_s.gguf".toList

-- The SELECTED_* variables select_model sets.
structure Selection where
  name : List Char
  params : List Char
  url : List Char
  file : List Char
  sizeMb : Int
  desc : List Char
  deriving DecidableEq

-- `basename "$url"` of a URL that does not end in '/': the text after its last '/'.
def basename (url : List Char) : List Char :=
  match strrchr url '/' with
  | some slash => url.drop (slash + 1)
  | none => url

-- `HW_RAM_BUDGET=$((HW_RAM_AVAIL - 500))`, then `[ "$HW_RAM_BUDGET" -lt 512 ] && HW_RAM_BUDGET=512`.
def ramBudget (ramAvail : Int) : Int :=
  if ramAvail - 500 < 512 then 512 else ramAvail - 500

-- `[ "$status_code" = "200" ] || [ "$status_code" = "302" ] || [ "$status_code" = "301" ]`
def reachable (statusCode : List Char) : Bool :=
  statusCode == "200".toList || statusCode == "302".toList || statusCode == "301".toList

-- select_model's loop. `httpCode url` is what
-- `$(curl -sI -o /dev/null -w "%{http_code}" --connect-timeout 5 "$url" 2>/dev/null || echo "000")` gives.
def selectLoop (budget : Int) (httpCode : List Char → List Char) : List CatalogEntry → Option CatalogEntry
  | [] => none
  | entry :: rest =>
    if budget ≥ entry.minRamMb ∧ reachable (httpCode entry.url) = true then some entry
    else selectLoop budget httpCode rest

def CatalogEntry.selected (entry : CatalogEntry) : Selection :=
  ⟨entry.name, entry.params, entry.url, basename entry.url, entry.sizeMb, entry.desc⟩

def fallbackSelection : Selection :=
  ⟨"BitNet-2B".toList, "2B".toList, fallbackModelUrl, fallbackModelFile, 780,
    "BitNet b1.58 2B — fast edge inference".toList⟩

def selectModel (budget : Int) (httpCode : List Char → List Char) : Selection :=
  match selectLoop budget httpCode modelCatalog with
  | some entry => entry.selected
  | none => fallbackSelection

section Loop

variable (budget : Int) (httpCode : List Char → List Char)

def Accepted (entry : CatalogEntry) : Prop :=
  entry.minRamMb ≤ budget ∧ reachable (httpCode entry.url) = true

instance (entry : CatalogEntry) : Decidable (Accepted budget httpCode entry) :=
  inferInstanceAs (Decidable (_ ∧ _))

theorem selectLoop_some : ∀ {entries : List CatalogEntry} {chosen : CatalogEntry},
    selectLoop budget httpCode entries = some chosen →
      ∃ before after, entries = before ++ chosen :: after ∧ Accepted budget httpCode chosen ∧
        ∀ entry ∈ before, ¬Accepted budget httpCode entry
  | [], _, never => by cases never
  | entry :: rest, chosen, selected => by
    unfold selectLoop at selected
    split at selected
    next accepted =>
      cases selected
      exact ⟨[], rest, rfl, ⟨accepted.1, accepted.2⟩, fun _ never => absurd never (List.not_mem_nil _)⟩
    next refused =>
      obtain ⟨before, after, split, accepted, earlier⟩ := selectLoop_some selected
      refine ⟨entry :: before, after, by rw [split]; rfl, accepted, fun other mem => ?_⟩
      rcases List.mem_cons.mp mem with rfl | later
      next => exact fun taken => refused ⟨taken.1, taken.2⟩
      next => exact earlier other later

theorem selectLoop_accepted {entries : List CatalogEntry} {chosen : CatalogEntry}
    (selected : selectLoop budget httpCode entries = some chosen) :
    chosen ∈ entries ∧ Accepted budget httpCode chosen := by
  obtain ⟨before, after, rfl, accepted, -⟩ := selectLoop_some budget httpCode selected
  exact ⟨List.mem_append_right _ (List.mem_cons_self _ _), accepted⟩

theorem selectLoop_top {rank : CatalogEntry → CatalogEntry → Prop} (refl : ∀ entry, rank entry entry)
    {entries : List CatalogEntry} (ranked : entries.Pairwise fun a b => rank b a) {chosen : CatalogEntry}
    (selected : selectLoop budget httpCode entries = some chosen) :
    ∀ entry ∈ entries, Accepted budget httpCode entry → rank entry chosen := by
  obtain ⟨before, after, rfl, -, earlier⟩ := selectLoop_some budget httpCode selected
  rw [List.pairwise_append, List.pairwise_cons] at ranked
  intro entry mem taken
  rcases List.mem_append.mp mem with old | new
  next => exact absurd taken (earlier entry old)
  next =>
    rcases List.mem_cons.mp new with rfl | later
    next => exact refl _
    next => exact ranked.2.1.1 entry later

theorem selectLoop_none : ∀ {entries : List CatalogEntry}, selectLoop budget httpCode entries = none →
    ∀ entry ∈ entries, ¬Accepted budget httpCode entry
  | [], _ => fun _ never => absurd never (List.not_mem_nil _)
  | entry :: rest, fellThrough => by
    unfold selectLoop at fellThrough
    split at fellThrough
    next => cases fellThrough
    next refused =>
      intro other mem taken
      rcases List.mem_cons.mp mem with rfl | later
      next => exact refused ⟨taken.1, taken.2⟩
      next => exact selectLoop_none fellThrough other later taken

end Loop

theorem modelCatalog_ranked :
    modelCatalog.Pairwise fun a b => b.minRamMb ≤ a.minRamMb ∧ b.sizeMb ≤ a.sizeMb := by
  decide

theorem modelCatalog_minRam : ∀ entry ∈ modelCatalog, 1024 ≤ entry.minRamMb := by
  decide

theorem select_model_largest_fitting (budget : Int) (httpCode : List Char → List Char) :
    (∃ chosen ∈ modelCatalog, selectLoop budget httpCode modelCatalog = some chosen ∧
        Accepted budget httpCode chosen ∧
        (∀ entry ∈ modelCatalog, Accepted budget httpCode entry →
          entry.minRamMb ≤ chosen.minRamMb ∧ entry.sizeMb ≤ chosen.sizeMb) ∧
        selectModel budget httpCode = chosen.selected) ∨
      (selectLoop budget httpCode modelCatalog = none ∧
        (∀ entry ∈ modelCatalog, ¬Accepted budget httpCode entry) ∧
        selectModel budget httpCode = fallbackSelection) := by
  cases selected : selectLoop budget httpCode modelCatalog with
  | none => exact .inr ⟨rfl, selectLoop_none budget httpCode selected, by rw [selectModel, selected]⟩
  | some chosen =>
    obtain ⟨mem, accepted⟩ := selectLoop_accepted budget httpCode selected
    exact .inl ⟨chosen, mem, rfl, accepted,
      selectLoop_top budget httpCode (fun _ => ⟨le_rfl, le_rfl⟩) modelCatalog_ranked selected,
      by rw [selectModel, selected]⟩

-- 3000 MB of budget with the 2B model's URL answering 404.
theorem budget_3000_without_bitnet :
    selectModel 3000 (fun url => if url = fallbackModelUrl then "404".toList else "200".toList) =
      (modelCatalog.get ⟨4, by decide⟩).selected ∧
      ∀ entry ∈ modelCatalog, Accepted 3000 (fun url => if url = fallbackModelUrl then "404".toList else "200".toList) entry →
        entry.minRamMb ≤ 1024 := by
  rcases select_model_largest_fitting 3000 fun url => if url = fallbackModelUrl then "404".toList else "200".toList with
    ⟨chosen, -, selected, -, top, picked⟩ | ⟨fellThrough, -, -⟩
  next =>
    obtain rfl : chosen = modelCatalog.get ⟨4, by decide⟩ := Option.some.inj (selected.symm.trans (by decide))
    exact ⟨picked, fun entry mem taken => (top entry mem taken).1⟩
  next => exact absurd fellThrough (by decide)

theorem selectLoop_margin (ramAvail : Int) (httpCode : List Char → List Char) {chosen : CatalogEntry}
    (selected : selectLoop (ramBudget ramAvail) httpCode modelCatalog = some chosen) :
    chosen.minRamMb + 500 ≤ ramAvail := by
  obtain ⟨mem, accepted⟩ := selectLoop_accepted _ _ selected
  have least := modelCatalog_minRam chosen mem
  have fits := accepted.1
  unfold ramBudget at fits
  split at fits <;> omega

theorem selectModel_small {ramAvail : Int} (httpCode : List Char → List Char) (small : ramAvail < 1524) :
    selectModel (ramBudget ramAvail) httpCode = fallbackSelection := by
  cases selected : selectLoop (ramBudget ramAvail) httpCode modelCatalog with
  | none => rw [selectModel, selected]
  | some chosen =>
    have least := modelCatalog_minRam chosen (selectLoop_accepted _ _ selected).1
    have kept := selectLoop_margin ramAvail httpCode selected
    omega

theorem installer_margin_or_fallback (ramAvail : Int) (httpCode : List Char → List Char) :
    (∀ chosen, selectLoop (ramBudget ramAvail) httpCode modelCatalog = some chosen →
      chosen.minRamMb + 500 ≤ ramAvail) ∧
      (ramAvail < 1524 → selectModel (ramBudget ramAvail) httpCode = fallbackSelection) ∧
      ∃ entry ∈ modelCatalog, entry.selected = fallbackSelection ∧ entry.minRamMb = 2048 :=
  ⟨fun _ selected => selectLoop_margin ramAvail httpCode selected, selectModel_small httpCode,
    ⟨modelCatalog.get ⟨3, by decide⟩, by decide, by decide, rfl⟩⟩

-- A machine with 1000 MB available is given BitNet-2B.
theorem small_machine_gets_bitnet :
    (1000 : Int) < 1524 ∧ selectModel (ramBudget 1000) (fun _ => "200".toList) = fallbackSelection :=
  ⟨by decide, (installer_margin_or_fallback 1000 fun _ => "200".toList).2.1 (by decide)⟩

end NeuronOS.Installer
