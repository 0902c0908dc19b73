import Apiary.Wire.Event

/-!
Events on the wire. What an event is as data is the event again, and no name of a field is that of a tag.
-/

namespace Apiary

/-- A record that starts with a tag of one of these kinds, and no two fields of which have one name. -/
def Json.Tagged (tag : String) (kinds : List String) (j : Json) : Prop :=
  ∃ kind ∈ kinds, ∃ fields, j = Json.tag tag kind fields ∧ (tag :: fields.map Prod.fst).Nodup

namespace Json

theorem tagged_tag (standing : Standing) {name kind : String} (kinds : List String) {fields : List (String × Json)}
    (h : name ∉ fields.map Prod.fst) :
    (Json.tag name kind fields).tagged? standing name kinds = some (kind, .obj fields) := by
  have hkeep : fields.filter (fun field => decide (field.1 ≠ name)) = fields := by
    refine List.filter_eq_self.mpr fun field hfield => decide_eq_true fun heq => ?_
    exact h (heq ▸ List.mem_map_of_mem hfield)
  simp only [tag, tagged?, List.lookup_cons_self, Option.bind_some, kind?, List.filter_cons, ne_eq, not_true,
    decide_false, if_false, Bool.false_eq_true]
  exact congrArg (fun fields => some (kind, Json.obj fields)) hkeep

theorem word64_ofWord (n : UInt64) : word64? (ofWord n) = some n := by
  have hlt : n.toNat < twoTo 64 := n.toNat_lt
  have hword : (ofWord n).word? 64 = some n.toNat := by
    rw [word?, ofWord, ofNat, intIn?, if_pos ⟨by omega, by omega⟩, Option.map_some, Int.toNat_natCast]
  rw [word64?, hword, Option.map_some, UInt64.ofNat_toNat]

end Json

theorem LogEntry.ofJson_fields (e : LogEntry) : LogEntry.ofJson? (.obj e.fields) = some e := by
  simp [ofJson?, Json.record?, fields, List.lookup_cons, Json.required?, Json.str?, LogKind.ofJson?, Json.choice?,
    LogKind.ofName_name]

theorem PlotSeries.ofJson_toJson (s : PlotSeries) : PlotSeries.ofJson? s.toJson = some s := by
  obtain ⟨key, color, name⟩ := s
  cases name <;>
    simp [ofJson?, toJson, Json.record?, Json.present, List.lookup_cons, Json.required?, Json.str?, Json.withDefault?,
      Json.optional?]

theorem PlotSeries.list_toJson (series : List PlotSeries) :
    Json.list? PlotSeries.ofJson? (.arr (series.map PlotSeries.toJson)) = some series := by
  rw [Json.list?]
  induction series with
  | nil => rfl
  | cons s rest ih => simp [List.mapM_cons, PlotSeries.ofJson_toJson, ih]

theorem PlotEvent.ofJson_fields (standing : Standing) (e : PlotEvent) :
    PlotEvent.ofJson? standing (.obj e.fields) = some e := by
  obtain ⟨id, title, xAxisKey, yAxisLabel, kind, series, data⟩ := e
  cases yAxisLabel <;>
    simp [ofJson?, fields, Json.record?, Json.present, List.lookup_cons, Json.required?, Json.str?, Json.withDefault?,
      Json.optional?, PlotKind.ofJson?, Json.choice?, PlotKind.ofName_name, PlotSeries.list_toJson, Json.arr?]

theorem Prompt.ofJson_record {j run id message : Json} {p : Prompt}
    (h : j.record? ["run_id", "id", "message"] = some [some run, some id, some message])
    (hrun : run.word64? = some p.run) (hid : id.word64? = some p.id) (hmessage : message.str? = some p.message) :
    Prompt.ofJson? j = some p := by
  simp [ofJson?, h, Json.required?, hrun, hid, hmessage]

theorem Prompt.ofJson_fields (p : Prompt) : Prompt.ofJson? (.obj p.fields) = some p :=
  have hrecord : (Json.obj p.fields).record? ["run_id", "id", "message"] =
      some [some (.ofWord p.run), some (.ofWord p.id), some (.str p.message)] := by
    simp [Json.record?, fields, List.lookup_cons]
  ofJson_record hrecord (Json.word64_ofWord _) (Json.word64_ofWord _) rfl

theorem RunOutcome.ofJson_toJson (standing : Standing) (o : RunOutcome) :
    RunOutcome.ofJson? standing o.toJson = some o := by
  cases o <;>
    simp [ofJson?, toJson, Json.tagged_tag, messageOf?, Json.record?, Json.required?, Json.str?]

theorem RunOutcome.tagged_toJson (o : RunOutcome) : o.toJson.Tagged "status" kinds := by
  cases o with
  | completed | stopped => exact ⟨_, by simp [kinds], [], rfl, by simp⟩
  | errored message | compileFailed message => exact ⟨_, by simp [kinds], [("message", .str message)], rfl, by simp⟩

namespace RunEvent

theorem checkpoint_record {j run model path bytes : Json} {r b : UInt64} {m p : String}
    (h : j.record? ["run_id", "model", "path", "bytes"] = some [some run, some model, some path, some bytes])
    (hrun : run.word64? = some r) (hmodel : model.str? = some m) (hpath : path.str? = some p)
    (hbytes : bytes.word64? = some b) : checkpointOfJson? j = some (checkpoint r m p b) := by
  simp [checkpointOfJson?, h, Json.required?, hrun, hmodel, hpath, hbytes]

theorem finished_record {j run outcome elapsed : Json} {r t : UInt64} {o : RunOutcome}
    (h : j.record? ["run_id", "outcome", "elapsed_ms"] = some [some run, some outcome, some elapsed])
    (hrun : run.word64? = some r) (houtcome : RunOutcome.ofJson? .held outcome = some o)
    (helapsed : elapsed.word64? = some t) : finishedOfJson? j = some (runFinished r o t) := by
  simp [finishedOfJson?, h, Json.required?, hrun, houtcome, helapsed]

/-- The name of the variant and the fields beside the tag. -/
def parts : RunEvent → String × List (String × Json)
  | log e => ("log", e.fields)
  | plot e => ("plot", e.fields)
  | confirmation p => ("confirmation", p.fields)
  | codeUpdate source => ("code_update", [("source", .str source)])
  | checkpoint run model path bytes => ("checkpoint",
    [("run_id", .ofWord run), ("model", .str model), ("path", .str path), ("bytes", .ofWord bytes)])
  | runFinished run outcome elapsed => ("run_finished",
    [("run_id", .ofWord run), ("outcome", outcome.toJson), ("elapsed_ms", .ofWord elapsed)])

theorem toJson_eq (e : RunEvent) : e.toJson = Json.tag "kind" e.parts.1 e.parts.2 := by
  cases e <;> rfl

theorem nodup_parts (e : RunEvent) : ("kind" :: e.parts.2.map Prod.fst).Nodup := by
  cases e with
  | plot e =>
    obtain ⟨id, title, xAxisKey, yAxisLabel, kind, series, data⟩ := e
    cases yAxisLabel <;> simp [parts, PlotEvent.fields, Json.present]
  | log | confirmation | codeUpdate | checkpoint | runFinished =>
    simp [parts, LogEntry.fields, Prompt.fields]

theorem ofJson_tagged (e : RunEvent) {j rest : Json}
    (h : j.tagged? .alone "kind" kinds = some (e.parts.1, rest)) :
    RunEvent.ofJson? j = match e with
      | log _ => (LogEntry.ofJson? rest).map log
      | plot _ => (PlotEvent.ofJson? .held rest).map plot
      | confirmation _ => (Prompt.ofJson? rest).map confirmation
      | codeUpdate _ => codeOfJson? rest
      | checkpoint _ _ _ _ => checkpointOfJson? rest
      | runFinished _ _ _ => finishedOfJson? rest := by
  cases e <;> simp [ofJson?, h, parts]

theorem ofJson_toJson (e : RunEvent) : RunEvent.ofJson? e.toJson = some e := by
  have hparts : (Json.tag "kind" e.parts.1 e.parts.2).tagged? .alone "kind" kinds =
      some (e.parts.1, .obj e.parts.2) :=
    Json.tagged_tag .alone kinds (List.nodup_cons.mp e.nodup_parts).1
  rw [toJson_eq, ofJson_tagged e hparts]
  cases e with
  | log e => exact congrArg (Option.map log) e.ofJson_fields
  | plot e => exact congrArg (Option.map plot) (e.ofJson_fields .held)
  | confirmation p => exact congrArg (Option.map confirmation) p.ofJson_fields
  | codeUpdate source => rfl
  | checkpoint run model path bytes =>
    have hrecord : (Json.obj (checkpoint run model path bytes).parts.2).record? ["run_id", "model", "path", "bytes"] =
        some [some (.ofWord run), some (.str model), some (.str path), some (.ofWord bytes)] := by
      simp [Json.record?, parts, List.lookup_cons]
    exact checkpoint_record hrecord (Json.word64_ofWord _) rfl rfl (Json.word64_ofWord _)
  | runFinished run outcome elapsed =>
    have hrecord : (Json.obj (runFinished run outcome elapsed).parts.2).record? ["run_id", "outcome", "elapsed_ms"] =
        some [some (.ofWord run), some outcome.toJson, some (.ofWord elapsed)] := by
      simp [Json.record?, parts, List.lookup_cons]
    exact finished_record hrecord (Json.word64_ofWord _) (RunOutcome.ofJson_toJson .held outcome)
      (Json.word64_ofWord _)

theorem tagged_toJson (e : RunEvent) : e.toJson.Tagged "kind" kinds :=
  ⟨e.parts.1, by cases e <;> simp [kinds, parts], e.parts.2, e.toJson_eq, e.nodup_parts⟩

theorem round_trips (e : RunEvent) :
    RunEvent.ofJson? e.toJson = some e ∧ e.toJson.Tagged "kind" kinds ∧
    ∀ o : RunOutcome, (∀ standing, RunOutcome.ofJson? standing o.toJson = some o) ∧
      o.toJson.Tagged "status" RunOutcome.kinds :=
  ⟨e.ofJson_toJson, e.tagged_toJson, fun o => ⟨fun standing => o.ofJson_toJson standing, o.tagged_toJson⟩⟩

end RunEvent

end Apiary
