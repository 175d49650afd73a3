/-
Which diagnostics can be told.  The ranges of an analysis have coordinates that the protocol
takes, and its messages are parts of the error text; so all that keeps its diagnostics back is a
lone surrogate, in the URI of the document or in a message.
-/
import EditorBridge.Proofs.Documents
import EditorBridge.Proofs.Ranges
import EditorBridge.Proofs.ReportSplicing

namespace EditorBridge

namespace Text

theorem subset_of_mem_lines {cs line : List CodePoint} (hline : line ∈ lines cs) : line ⊆ cs := by
  fun_induction lines cs generalizing line with
  | case1 => exact absurd hline List.not_mem_nil
  | case2 rest ih =>
      rcases List.mem_cons.mp hline with rfl | hline
      · exact List.nil_subset _
      · exact fun c hc => List.mem_cons_of_mem _ (List.mem_cons_of_mem _ (ih hline hc))
  | case3 c rest hshape hbreak ih =>
      rcases List.mem_cons.mp hline with rfl | hline
      · exact List.nil_subset _
      · exact fun c hc => List.mem_cons_of_mem _ (ih hline hc)
  | case4 c rest hshape hbreak hlines ih =>
      rw [List.mem_singleton.mp hline]
      exact List.cons_subset_cons c (List.nil_subset rest)
  | case5 c rest hshape hbreak first more hlines ih =>
      rw [hlines] at ih
      rcases List.mem_cons.mp hline with rfl | hline
      · exact List.cons_subset_cons c (ih List.mem_cons_self)
      · exact fun c hc => List.mem_cons_of_mem _ (ih (List.mem_cons_of_mem _ hline) hc)

theorem subset_trimWhile {α : Type} (p : α → Bool) (cs : List α) : trimWhile p cs ⊆ cs := by
  intro c hc
  have hbehind := (List.dropWhile_suffix p).subset (List.mem_reverse.mp hc)
  exact (List.dropWhile_suffix p).subset (List.mem_reverse.mp hbehind)

end Text

namespace ErrorReport

theorem subset_withoutColours (cs : List CodePoint) : withoutColours cs ⊆ cs := by
  fun_induction withoutColours cs with
  | case1 => exact List.Subset.refl []
  | case2 c rest left hleft ih => exact List.Subset.trans ih (suffix_of_behindEscape? hleft).subset
  | case3 c rest hleft ih => exact List.cons_subset_cons c ih

theorem suffix_behind (front : List CodePoint) (mark : CodePoint) (rest : List CodePoint) :
    rest <:+ front ++ mark :: rest :=
  (List.suffix_cons mark rest).trans (List.suffix_append front _)

/-- The message of a header is what its line ends with. -/
theorem suffix_of_header? {line : List CodePoint} {header : Header}
    (h : header? line = some header) : header.message <:+ line := by
  obtain ⟨file, tail, rfl, hbehind⟩ := exists_behindFile_of_header? h
  obtain ⟨blanks, rfl, -⟩ := eq_of_headerBehindFile? hbehind
  refine List.IsSuffix.trans ?_ (suffix_behind file _ _)
  refine List.IsSuffix.trans ?_ (suffix_behind header.line _ _)
  refine List.IsSuffix.trans ?_ (suffix_behind header.column _ _)
  exact (suffix_behind header.severity _ header.message).trans (List.suffix_append blanks _)

theorem subset_of_entry {header : Header} {following : List (List CodePoint)} {found : ReportEntry}
    (h : entry header following = .ok found) : found.message.points ⊆ header.message := by
  simp only [entry] at h
  obtain ⟨line, -, hline⟩ := bind_eq_ok_iff.mp h
  obtain ⟨column, -, hcolumn⟩ := bind_eq_ok_iff.mp hline
  rw [← Except.ok.inj hcolumn]
  exact Text.subset_trimWhile isBlank header.message

theorem subset_of_mem_entriesOfLines {lines : List (List CodePoint)} {entries : List ReportEntry}
    (h : entriesOfLines lines = .ok entries) {found : ReportEntry} (hfound : found ∈ entries) :
    ∃ line ∈ lines, found.message.points ⊆ line := by
  induction lines generalizing entries with
  | nil =>
      rw [← Except.ok.inj h] at hfound
      exact absurd hfound List.not_mem_nil
  | cons line rest ih =>
      rw [entriesOfLines] at h
      split at h
      next =>
          obtain ⟨other, hother, hsubset⟩ := ih h hfound
          exact ⟨other, List.mem_cons_of_mem line hother, hsubset⟩
      next header hheader =>
          obtain ⟨first, hfirst, hmore⟩ := bind_eq_ok_iff.mp h
          obtain ⟨more, hentries, hok⟩ := bind_eq_ok_iff.mp hmore
          rw [← Except.ok.inj hok] at hfound
          rcases List.mem_cons.mp hfound with rfl | hfound
          · refine ⟨line, List.mem_cons_self, ?_⟩
            exact List.Subset.trans (subset_of_entry hfirst) (suffix_of_header? hheader).subset
          · obtain ⟨other, hother, hsubset⟩ := ih hentries hfound
            exact ⟨other, List.mem_cons_of_mem line hother, hsubset⟩

/-- The message of an entry is a part of the error text. -/
theorem subset_of_parse {text : List CodePoint} {entries : List ReportEntry}
    (h : parse text = .ok entries) {found : ReportEntry} (hfound : found ∈ entries) :
    found.message.points ⊆ text := by
  obtain ⟨line, hline, hsubset⟩ := subset_of_mem_entriesOfLines h hfound
  have hline := Text.subset_of_mem_lines hline
  exact List.Subset.trans hsubset (List.Subset.trans hline (subset_withoutColours text))

end ErrorReport

namespace Position

theorem isNameable_of_check {p q : Position} (h : p.check = .ok q) : q.IsNameable := by
  rcases p.check_cases with ⟨hnameable, hcheck⟩ | ⟨-, cause, hcheck⟩
  · rw [← Except.ok.inj (hcheck.symm.trans h)]
    exact hnameable
  · exact nomatch hcheck.symm.trans h

theorem isNameable_of_place {text : List CodePoint} {offset : Int} {p : Position}
    (h : place text offset = .ok p) : p.IsNameable := by
  obtain ⟨n, -, -, -, -, hnameable⟩ := (place_eq_ok_iff text offset p).mp h
  exact hnameable

end Position

theorem Range.isNameable_of_ofSpan {text : List CodePoint} {span : Span} {range : Range}
    (h : Range.ofSpan text span = .ok range) : range.IsNameable := by
  obtain ⟨hstart, hstop⟩ := (ofSpan_eq_ok_iff text span range).mp h
  exact ⟨Position.isNameable_of_place hstart, Position.isNameable_of_place hstop⟩

namespace Diagnostic

theorem isNameable_plainRange {line column length : Nat} {range : Range}
    (h : plainRange line column length = .ok range) : range.IsNameable := by
  obtain ⟨start, hstart, hrest⟩ := bind_eq_ok_iff.mp h
  obtain ⟨stop, hstop, hok⟩ := bind_eq_ok_iff.mp hrest
  rw [← Except.ok.inj hok]
  exact ⟨Position.isNameable_of_check hstart, Position.isNameable_of_check hstop⟩

theorem isNameable_entryRange {entry : ReportEntry} {text : Option (List CodePoint)} {range : Range}
    (h : entryRange entry text = .ok range) : range.IsNameable := by
  unfold entryRange at h
  dsimp only at h
  split at h
  next => exact isNameable_plainRange (mapError_eq_ok_iff.mp h)
  next text =>
      split at h
      next => exact isNameable_plainRange (mapError_eq_ok_iff.mp h)
      next => exact Range.isNameable_of_ofSpan h

/-- A diagnostic has a range that the protocol takes and a message from the error text. -/
theorem nameable_of_ofReport {report : List CodePoint} {text : Option (List CodePoint)}
    {diagnostics : List Diagnostic} (h : ofReport report text = .ok diagnostics)
    {diagnostic : Diagnostic} (hmem : diagnostic ∈ diagnostics) :
    diagnostic.range.IsNameable ∧ diagnostic.message.points ⊆ report := by
  obtain ⟨entries, hparse, hentries⟩ := bind_eq_ok_iff.mp h
  obtain ⟨entry, hentry, hdiagnostic⟩ := exists_of_mem_mapM hentries _ hmem
  obtain ⟨range, hrange, rfl⟩ := map_eq_ok_iff.mp (mapError_eq_ok_iff.mp hdiagnostic)
  have hsubset := ErrorReport.subset_of_parse (mapError_eq_ok_iff.mp hparse) hentry
  exact ⟨isNameable_entryRange hrange, hsubset⟩

end Diagnostic

namespace Json

theorem writable_ofNat {n : Nat} (hn : n ≤ Position.maxCoordinate) : Writable (.int n) :=
  .int (Text.isConvertible_of_lt (Nat.lt_of_le_of_lt hn (by decide)))

end Json

theorem Position.writable_toJson {p : Position} (hp : p.IsNameable) : p.toJson.Writable := by
  simp [toJson, Json.writable_obj_iff, Json.writable_ofNat hp.1, Json.writable_ofNat hp.2]

theorem Range.writable_toJson {range : Range} (hrange : range.IsNameable) :
    range.toJson.Writable := by
  simp [toJson, Json.writable_obj_iff, Position.writable_toJson hrange.1,
    Position.writable_toJson hrange.2]

theorem Severity.code_le (severity : Severity) : severity.code ≤ Position.maxCoordinate := by
  cases severity <;> decide

theorem Diagnostic.writable_toJson_iff {diagnostic : Diagnostic}
    (hrange : diagnostic.range.IsNameable) :
    diagnostic.toJson.Writable ↔ Text.isWhole diagnostic.message.points = true := by
  simp [toJson, Json.writable_obj_iff, Range.writable_toJson hrange, Json.writable_str_iff,
    Json.writable_ofNat diagnostic.severity.code_le]

/-- No lone surrogate stands in a URI or in the messages of diagnostics about it. -/
def Diagnostic.AreWhole (uri : Text) (list : List Diagnostic) : Prop :=
  Text.isWhole uri.points = true ∧
    ∀ diagnostic ∈ list, Text.isWhole diagnostic.message.points = true

namespace Outgoing

/-- Diagnostics with ranges that the protocol takes can be told exactly when there is no lone
surrogate in the URI or in a message. -/
theorem isWritable_diagnostics_iff {uri : Text} {list : List Diagnostic}
    (hlist : ∀ diagnostic ∈ list, diagnostic.range.IsNameable) :
    (Outgoing.diagnostics uri list).IsWritable ↔ Diagnostic.AreWhole uri list := by
  have hitems : (∀ diagnostic ∈ list, diagnostic.toJson.Writable) ↔
      ∀ diagnostic ∈ list, Text.isWhole diagnostic.message.points = true :=
    forall₂_congr fun diagnostic hmem => Diagnostic.writable_toJson_iff (hlist diagnostic hmem)
  simp [Diagnostic.AreWhole, IsWritable, fields, notificationFields, diagnosticsParams,
    optionalField, version, Json.isNull, Json.writable_obj_iff, Json.writable_arr_iff,
    Json.writable_str_iff, hitems]

/-- Where some diagnostics can be told, the empty list can be. -/
theorem isWritable_diagnostics_nil {uri : Text} {list : List Diagnostic}
    (hlist : (Outgoing.diagnostics uri list).IsWritable) :
    (Outgoing.diagnostics uri []).IsWritable := by
  have hparams := (Json.writable_obj_iff.mp hlist ("params", diagnosticsParams uri list)
    (List.mem_append_right _ List.mem_cons_self)).2
  have huri := (Json.writable_obj_iff.mp hparams _ List.mem_cons_self).2
  exact (isWritable_diagnostics_iff (List.forall_mem_nil _)).mpr
    ⟨Json.writable_str_iff.mp huri, List.forall_mem_nil _⟩

/-- An alert can be sent exactly when there is no lone surrogate in it. -/
theorem isWritable_alert_iff (message : Text) :
    (Outgoing.alert message).IsWritable ↔ Text.isWhole message.points = true := by
  have htype : (Json.int 1).Writable := Json.writable_ofNat (show 1 ≤ _ by decide)
  simp [IsWritable, fields, notificationFields, alertParams, optionalField, version,
    Json.isNull, Json.writable_obj_iff, Json.writable_str_iff, htype]

end Outgoing

/-- The editor is told, if it is to be told at all, unless a lone surrogate stands in what it
would be told. -/
theorem Config.tell_cases (cfg : Config) {uri : Text} {list : List Diagnostic}
    (hlist : ∀ diagnostic ∈ list, diagnostic.range.IsNameable) :
    (cfg.publishes = true → Diagnostic.AreWhole uri list) ∧
        cfg.telling uri list = .ok () ∧
        cfg.told uri list = (if cfg.publishes then [.diagnostics uri list] else []) ∨
      (cfg.publishes = true ∧ ¬Diagnostic.AreWhole uri list) ∧
        ∃ cause, cfg.telling uri list = .error (.ofWrite cause) ∧ cfg.told uri list = [] := by
  rw [telling, told]
  by_cases hpublishes : cfg.publishes = true
  · simp only [hpublishes, if_true, forall_const, true_and]
    rw [← Outgoing.isWritable_diagnostics_iff hlist]
    by_cases hwritable : (Outgoing.diagnostics uri list).IsWritable
    · exact Or.inl ⟨hwritable, Outgoing.sending_eq_ok_iff.mpr hwritable,
        Outgoing.written_of_isWritable hwritable⟩
    · exact Or.inr ⟨hwritable, Outgoing.exists_sending_eq_error hwritable⟩
  · exact Or.inl ⟨fun h => absurd h hpublishes, by rw [if_neg hpublishes], by simp [hpublishes]⟩

end EditorBridge
