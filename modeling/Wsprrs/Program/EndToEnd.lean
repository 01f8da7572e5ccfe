import Wsprrs.Pipeline.Stamp
import Wsprrs.Program.Model
import Wsprrs.System.Reports

/-! From the sockets to `wsprd` and from `wsprd` to the outputs: a decode is given the window
received under its number, `wsprd` is started on its WAV file, and what is written under this
number is what this `wsprd` has found. -/
namespace Wsprrs.Program
open EventMachine Workspace Rtp Status TagLengthValue

section
variable {δ : Type*} [DecidableEq δ] (cfg : Config) (sinks : DecodeTask.Sinks)
  (toJson : WsprSpot → Except Text Text) (disk : Disk δ) (wisdom : Option (List UInt8))
  (es : List (Event δ))

/-- A decode keeps its window. -/
theorem spawned_append {es : List (Event δ)} {id : ℕ} {w : AudioWindow}
    (h : ((machine cfg sinks toJson δ).after (.initial disk wisdom) es).1.pipeline.spawned[id]? = some w)
    (es' : List (Event δ)) :
    ((machine cfg sinks toJson δ).after (.initial disk wisdom) (es ++ es')).1.pipeline.spawned[id]? =
      some w := by
  rw [system_after, systemEvents] at h ⊢
  rw [Component.trace_append]
  exact System.spawned_append cfg sinks toJson _ _ h

/-- A decode that is over stays over. -/
theorem done_append {es : List (Event δ)} {id : ℕ} {result : Except Text (List WsprSpot)}
    (h : ((machine cfg sinks toJson δ).after (.initial disk wisdom) es).2.phase id = .done result)
    (es' : List (Event δ)) :
    ((machine cfg sinks toJson δ).after (.initial disk wisdom) (es ++ es')).2.phase id =
      .done result := by
  rw [files_after, fileEvents] at h ⊢
  rw [Component.trace_append, after_append]
  exact done_after h _

/-- The windows come from the decode task. -/
theorem spawned_of_windowOf {id : ℕ} {w : AudioWindow}
    (h : windowOf id (fileEvents cfg sinks toJson disk wisdom es) = some w) :
    ((machine cfg sinks toJson δ).after (.initial disk wisdom) es).1.pipeline.spawned[id]? =
      some w := by
  obtain ⟨d, hd, hspawn⟩ := List.exists_of_findSome?_eq_some h
  obtain rfl : d = .task id (.spawn w) := by
    split at hspawn
    · split_ifs at hspawn with hid
      cases hspawn
      rw [hid]
    · contradiction
  obtain ⟨before, e, after, rfl, hfocus⟩ := (filesComponent cfg sinks toJson).exists_of_mem_trace hd
  cases e with
  | spawn i =>
    obtain ⟨window, hwindow, heq⟩ := Option.map_eq_some_iff.mp hfocus
    cases heq
    exact spawned_append cfg sinks toJson disk wisdom hwindow _
  | task i e =>
    cases e <;> simp [filesComponent, linkedRight, filesFocus] at hfocus
  | _ => simp [filesComponent, linkedRight, filesFocus] at hfocus

/-- A result comes from a decode that has ended with it. -/
theorem done_of_decoded {id : ℕ} {r : DecodeTask.DecodeResult}
    (h : .decoded id r ∈ decodeTask
      ((machine cfg sinks toJson δ).outputs (.initial disk wisdom) es)) :
    ∃ window result,
      ((machine cfg sinks toJson δ).after (.initial disk wisdom) es).1.pipeline.spawned[id]? =
        some window ∧
      ((machine cfg sinks toJson δ).after (.initial disk wisdom) es).2.phase id = .done result ∧
      r = result.map (fun spots => (spots, window.windowStart)) := by
  have hflow := Pipeline.flow_run cfg sinks toJson
    (System.tasks cfg sinks toJson (systemEvents cfg sinks toJson disk wisdom es))
  rw [decodeTask_outputs, System.decoded, System.pipeline_outputs, Pipeline.mem_output] at h
  obtain ⟨window, outcome, hwindow, hcomplete, rfl⟩ := hflow.decoded id r h
  rw [← System.pipeline_after, ← system_after] at hwindow
  obtain ⟨before, e, after, rfl, hfocus⟩ := (systemComponent cfg sinks toJson).exists_of_mem_trace
    (System.complete_mem cfg sinks toJson hcomplete)
  cases e with
  | join i o =>
    simp only [systemComponent, linkedLeft, systemFocus, Option.ite_none_right_eq_some] at hfocus
    obtain ⟨hends, heq⟩ := hfocus
    cases heq
    obtain ⟨w, result, hw, hdone, hresult⟩ := of_ends hends
    have hkept := spawned_append cfg sinks toJson disk wisdom hw (.join id outcome :: after)
    rw [hwindow] at hkept
    cases hkept
    refine ⟨window, result, hwindow, done_append cfg sinks toJson disk wisdom hdone _, ?_⟩
    rw [← hresult]
    rfl
  | system e =>
    cases e <;> simp [systemComponent, linkedLeft, systemFocus] at hfocus
  | _ => simp [systemComponent, linkedLeft, systemFocus] at hfocus

/-- The windows received are those of the spawned decodes. -/
theorem received_iff {id : ℕ} {w : AudioWindow} :
    .received id w ∈ decodeTask ((machine cfg sinks toJson δ).outputs (.initial disk wisdom) es) ↔
      ((machine cfg sinks toJson δ).after (.initial disk wisdom) es).1.pipeline.spawned[id]? =
        some w := by
  rw [decodeTask_outputs, system_after, System.received_iff]

/-- What `wsprd` is started on is of the window received. -/
theorem started_received {id : ℕ} {freq : F64} {files : FileName → Option (List UInt8)}
    (h : (freq, files) ∈ startsOf id
      (decodes ((machine cfg sinks toJson δ).outputs (.initial disk wisdom) es))) :
    ∃ window, .received id window ∈
        decodeTask ((machine cfg sinks toJson δ).outputs (.initial disk wisdom) es) ∧
      freq = window.centerFreqHz ∧ Ready window files := by
  rw [mem_startsOf, decodes_outputs] at h
  obtain ⟨window, hwindow, hfreq, hready⟩ := started_run disk wisdom _ id h
  exact ⟨window, (received_iff ..).mpr (spawned_of_windowOf cfg sinks toJson disk wisdom es hwindow),
    hfreq, hready⟩

/-- At most one `wsprd` is started for a decode, and one if there are spots. -/
theorem starts_after (id : ℕ) :
    (((machine cfg sinks toJson δ).after (.initial disk wisdom) es).2.phase id).Starts
      (startsOf id
        (decodes ((machine cfg sinks toJson δ).outputs (.initial disk wisdom) es))).length := by
  rw [files_after, decodes_outputs]
  exact starts_run disk wisdom _ id

/-- In every run of the program, in whatever order its loops, the decodes and the steps in their
directories come: what has been logged, written and inserted under a number is nothing, or a
beginning of what handling the result of one window causes, which is the window received under
this number. The decode with this number is over, with this result; and the result is an error, or
the one `wsprd` that was started for it, on the WAV file of this window and at its frequency, has
left these spots in `ALL_WSPR.TXT`. -/
theorem effects_own (id : ℕ) :
    let st := (machine cfg sinks toJson δ).after (.initial disk wisdom) es
    let out := (machine cfg sinks toJson δ).outputs (.initial disk wisdom) es
    DecodeTask.effectsOf id (decodeTask out) = [] ∨ ∃ window result,
      .received id window ∈ decodeTask out ∧ st.2.phase id = .done result ∧
      OwnResult window (lastWritten id (decodes out)) result ∧
      (∀ spots, result = .ok spots → ∃ files,
        startsOf id (decodes out) = [(window.centerFreqHz, files)] ∧ Ready window files) ∧
      DecodeTask.effectsOf id (decodeTask out) <+:
        DecodeTask.handling sinks toJson id (result.map (fun spots => (spots, window.windowStart))) := by
  intro st out
  have honce : DecodeTask.AtMostOnce sinks toJson (decodeTask out) := by
    simp only [out]
    rw [decodeTask_outputs, System.decoded_eq]
    exact Pipeline.atMostOnce_run sinks toJson _
  obtain hnone | ⟨r, hdecoded, hshown⟩ := honce id
  · exact .inl hnone
  right
  obtain ⟨window, result, hwindow, hdone, rfl⟩ :=
    done_of_decoded cfg sinks toJson disk wisdom es hdecoded
  have hreceived := (received_iff cfg sinks toJson disk wisdom es).mpr hwindow
  refine ⟨window, result, hreceived, hdone, ?_, ?_, hshown⟩
  · have hphase := hdone
    rw [files_after] at hphase
    obtain ⟨w, hw, hown⟩ := ownResult_run disk wisdom _ id hphase
    have hsame := spawned_of_windowOf cfg sinks toJson disk wisdom es hw
    rw [hwindow] at hsame
    obtain rfl := Option.some.inj hsame
    simp only [out]
    rw [decodes_outputs]
    exact hown
  · rintro spots rfl
    have hstarts := starts_after cfg sinks toJson disk wisdom es id
    rw [show _ = _ from hdone] at hstarts
    obtain ⟨⟨freq, files⟩, hone⟩ := List.length_eq_one_iff.mp hstarts
    have hmem : (freq, files) ∈ startsOf id (decodes out) := by
      rw [hone]
      exact List.mem_singleton_self _
    obtain ⟨w, hw, rfl, hready⟩ := started_received cfg sinks toJson disk wisdom es hmem
    rw [received_iff, hwindow] at hw
    obtain rfl := Option.some.inj hw
    exact ⟨files, hone, hready⟩

end
end Wsprrs.Program
