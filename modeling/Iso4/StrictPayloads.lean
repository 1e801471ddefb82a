/-
The payloads that the runtime accepts.

No parser faults on any payload.  What a parser accepts is the encoding of the value
it gives, down to the last byte: `wire` spells the value out again, together with
what the parser resolves or drops (the limits as they were sent, the run id of a
stream frame).  The answer to a bridge call has a lenient parser.

* `accepted_payloads` — no fault, and the encodings;
* `parse_not_injective` — two payloads, one value: what is dropped may differ.
-/
import Iso4.Lib.Codec
import Iso4.PayloadCursors

namespace Iso4

open Wire

namespace Ipc

open PayloadWriter PayloadReader

/-! ### Fields -/

theorem canonical_readU32 : Canonical writeU32 PayloadReader.readU32 := canonical_u32 _

theorem begins_readU8 {left rest : Blob} {b : UInt8} (h : PayloadReader.readU8 left = .ok (b, rest)) :
    Begins (writeU8 b.toNat) left rest := by
  rw [writeU8, UInt8.ofNat_toNat]
  exact canonical_u8 _ left b rest h

theorem canonical_readBool : Canonical writeBool PayloadReader.readBool := by
  intro left x rest h
  obtain ⟨b, mid, hb, h⟩ := Reader.bind_ok h
  have hbyte := begins_readU8 hb
  generalize hn : b.toNat = n at h hbyte
  rcases n with _ | _ | n
  · cases h
    exact hbyte
  · cases h
    exact hbyte
  · cases h

theorem canonical_readString : Canonical writeString PayloadReader.readString := by
  intro left s rest h
  obtain ⟨len, mid, hlen, h⟩ := Reader.bind_ok h
  obtain ⟨bytes, mid', hbytes, hbody⟩ := Reader.bind_ok h
  obtain ⟨rfl, rfl⟩ := take_ok hbytes
  cases hs : ofUtf8 bytes with
  | none =>
    rw [hs] at hbody
    cases hbody
  | some t =>
    rw [hs] at hbody
    cases hbody
    rw [writeString, utf8_of_ofUtf8 hs]
    exact (canonical_readU32 _ _ _ hlen).append ⟨bytes, rfl, rfl⟩

theorem canonical_readValueBlob : Canonical writeLengthPrefixedBytes PayloadReader.readValueBlob := by
  intro left blob rest h
  obtain ⟨len, mid, hlen, h⟩ := Reader.bind_ok h
  obtain ⟨rfl, rfl⟩ := take_ok h
  exact (canonical_readU32 _ _ _ hlen).append ⟨blob, rfl, rfl⟩

section Combinators

variable {α : Type} {write : α → Written} {r : PayloadReader.Read α}

theorem canonical_readOptional (hr : Canonical write r) :
    Canonical (writeOptional write) (PayloadReader.readOptional r) := by
  intro left o rest h
  obtain ⟨b, mid, hb, h⟩ := Reader.bind_ok h
  have hbyte := begins_readU8 hb
  generalize hn : b.toNat = n at h hbyte
  rcases n with _ | _ | n
  · cases h
    exact hbyte
  · obtain ⟨a, last, ha, h⟩ := Reader.bind_ok h
    cases h
    exact hbyte.append (hr _ _ _ ha)
  · cases h

theorem readList_ok {what : String} {left rest : Blob} {as : List α} (hr : Canonical write r)
    (h : PayloadReader.readList what r left = .ok (as, rest)) : Begins (writeList write as) left rest := by
  obtain ⟨count, mid, hcount, h⟩ := Reader.bind_ok h
  obtain ⟨remaining, mid', hremaining, h⟩ := Reader.bind_ok h
  cases hremaining
  split at h
  · cases h
  · obtain ⟨rfl, hentries⟩ := hr.times count _ _ _ h
    exact (canonical_readU32 _ _ _ hcount).append hentries

theorem canonical_readList (what : String) (hr : Canonical write r) :
    Canonical (writeList write) (PayloadReader.readList what r) := fun _ _ _ h => readList_ok hr h

end Combinators

theorem canonical_readOptionalU32 : Canonical writeOptionalU32 PayloadReader.readOptionalU32 :=
  canonical_readOptional canonical_readU32

/-- The limits as they were sent. -/
theorem readResourceLimits_ok {band : BandPolicy} {left rest : Blob} {limits : ResourceLimits}
    (h : PayloadReader.readResourceLimits band left = .ok (limits, rest)) :
    ∃ sent, resolveLimits sent band = limits ∧ Begins (writeResourceLimits sent) left rest := by
  obtain ⟨memoryMb, left₁, h₁, h⟩ := Reader.bind_ok h
  obtain ⟨cpuTimeMs, left₂, h₂, h⟩ := Reader.bind_ok h
  obtain ⟨wallTimeMs, left₃, h₃, h⟩ := Reader.bind_ok h
  obtain ⟨maxExportBytes, left₄, h₄, h⟩ := Reader.bind_ok h
  obtain ⟨maxStdoutBytes, left₅, h₅, h⟩ := Reader.bind_ok h
  obtain ⟨maxStderrBytes, left₆, h₆, h⟩ := Reader.bind_ok h
  obtain ⟨maxBridgeCallBytes, left₇, h₇, h⟩ := Reader.bind_ok h
  obtain ⟨maxBridgeCalls, left₈, h₈, h⟩ := Reader.bind_ok h
  obtain ⟨graceMs, left₉, h₉, h⟩ := Reader.bind_ok h
  obtain ⟨hardMemoryMb, last, h₁₀, h⟩ := Reader.bind_ok h
  cases h
  refine ⟨_, rfl, ?_⟩
  have hread : ∀ {left rest : Blob} {o : Option Nat},
      PayloadReader.readOptionalU32 left = .ok (o, rest) → Begins (writeOptionalU32 o) left rest :=
    fun h => canonical_readOptionalU32 _ _ _ h
  exact (hread h₁).append ((hread h₂).append ((hread h₃).append ((hread h₄).append ((hread h₅).append
    ((hread h₆).append ((hread h₇).append ((hread h₈).append ((hread h₉).append (hread h₁₀)))))))))

/-- A global as the client spells it. -/
def HostGlobalDef.wire (d : HostGlobalDef) : GlobalDefPayload := ⟨d.name, d.kind, some d.enumerable⟩

theorem readGlobalTail_ok {kind : UInt8} {left rest : Blob} {tail : GlobalKind}
    (h : readGlobalTail kind left = .ok (tail, rest)) :
    kind.toNat = globalDefKind tail ∧ Begins (writeGlobalTail tail) left rest := by
  unfold readGlobalTail at h
  generalize kind.toNat = n at h
  rcases n with _ | _ | _ | _ | n
  · cases h
    exact ⟨rfl, Begins.nil left⟩
  · obtain ⟨expr, last, hexpr, h⟩ := Reader.bind_ok h
    cases h
    exact ⟨rfl, canonical_readString _ _ _ hexpr⟩
  · obtain ⟨blob, last, hblob, h⟩ := Reader.bind_ok h
    cases h
    exact ⟨rfl, canonical_readValueBlob _ _ _ hblob⟩
  · obtain ⟨shim, mid, hshim, h⟩ := Reader.bind_ok h
    obtain ⟨handlerName, last, hname, h⟩ := Reader.bind_ok h
    cases h
    exact ⟨rfl, (canonical_readString _ _ _ hshim).append (canonical_readString _ _ _ hname)⟩
  · cases h

theorem canonical_readGlobalDef : Canonical (fun d => writeGlobalDef d.wire) readGlobalDef := by
  intro left d rest h
  obtain ⟨kind, left₁, hkind, h⟩ := Reader.bind_ok h
  obtain ⟨name, left₂, hname, h⟩ := Reader.bind_ok h
  obtain ⟨enumerable, left₃, henum, h⟩ := Reader.bind_ok h
  obtain ⟨tail, left₄, htail, h⟩ := Reader.bind_ok h
  cases h
  obtain ⟨hn, htail⟩ := readGlobalTail_ok htail
  have hbyte := begins_readU8 hkind
  rw [hn] at hbyte
  exact hbyte.append ((canonical_readString _ _ _ hname).append
    ((canonical_readBool _ _ _ henum).append htail))

theorem readGlobalDefs_ok {left rest : Blob} {globals : List HostGlobalDef}
    (h : readGlobalDefs left = .ok (globals, rest)) :
    Begins (writeGlobalDefs (globals.map HostGlobalDef.wire)) left rest := by
  have hlist := readList_ok canonical_readGlobalDef h
  unfold writeGlobalDefs writeList
  rw [List.length_map, List.map_map]
  exact hlist

/-- An entry of an object or of a host module. -/
def writeShapeEntry (p : String × HostModuleNode) : Written := writeString p.1 ++ writeHostModuleNode p.2

theorem writeEntries_eq (entries : List (String × HostModuleNode)) :
    writeU32 entries.length ++ writeEntries entries = writeList writeShapeEntry entries := by
  have hconcat : writeEntries entries = Written.concat (entries.map writeShapeEntry) := by
    induction entries with
    | nil => rfl
    | cons p entries ih =>
      obtain ⟨key, child⟩ := p
      rw [writeEntries, ih]
      rfl
  rw [hconcat, writeList]

/-- Shapes, level by level. -/
theorem canonical_readNode (levels : Nat) : Canonical writeHostModuleNode (readNode levels) := by
  induction levels with
  | zero =>
    intro left node rest h
    cases h
  | succ levels ih =>
    intro left node rest h
    obtain ⟨tag, mid, htag, h⟩ := Reader.bind_ok h
    have hbyte := begins_readU8 htag
    generalize tag.toNat = n at h hbyte
    rcases n with _ | _ | _ | n
    · cases h
      exact hbyte
    · obtain ⟨blob, last, hblob, h⟩ := Reader.bind_ok h
      cases h
      exact hbyte.append (canonical_readValueBlob _ _ _ hblob)
    · obtain ⟨entries, last, hentries, h⟩ := Reader.bind_ok h
      cases h
      rw [writeHostModuleNode, writeEntries_eq]
      refine hbyte.append (readList_ok (fun left p rest hp => ?_) hentries)
      obtain ⟨key, mid, hkey, hp⟩ := Reader.bind_ok hp
      obtain ⟨node, last, hnode, hp⟩ := Reader.bind_ok hp
      cases hp
      exact (canonical_readString _ _ _ hkey).append (ih _ _ _ hnode)
    · cases h

theorem canonical_readImportBinding : Canonical writeImport readImportBinding := by
  intro left b rest h
  obtain ⟨specifier, left₁, hspecifier, h⟩ := Reader.bind_ok h
  obtain ⟨kind, left₂, hkind, h⟩ := Reader.bind_ok h
  have hbyte := begins_readU8 hkind
  generalize kind.toNat = n at h hbyte
  rcases n with _ | _ | n
  · obtain ⟨text, last, htext, h⟩ := Reader.bind_ok h
    cases h
    exact (canonical_readString _ _ _ hspecifier).append
      (hbyte.append (canonical_readString _ _ _ htext))
  · obtain ⟨exports, last, hexports, h⟩ := Reader.bind_ok h
    cases h
    refine (canonical_readString _ _ _ hspecifier).append (hbyte.append ?_)
    rw [writeEntries_eq]
    refine readList_ok (fun left p rest hp => ?_) hexports
    obtain ⟨name, mid, hname, hp⟩ := Reader.bind_ok hp
    obtain ⟨node, last, hnode, hp⟩ := Reader.bind_ok hp
    cases hp
    exact (canonical_readString _ _ _ hname).append (canonical_readNode _ _ _ _ hnode)
  · cases h

theorem canonical_readImportBindings : Canonical writeImports readImportBindings :=
  canonical_readList _ canonical_readImportBinding

theorem canonical_readImportRebinds : Canonical writeImportRebinds readImportRebinds := by
  refine canonical_readList _ fun left r rest h => ?_
  obtain ⟨specifier, mid, hspecifier, h⟩ := Reader.bind_ok h
  obtain ⟨path, last, hpath, h⟩ := Reader.bind_ok h
  cases h
  exact (canonical_readString _ _ _ hspecifier).append (readList_ok canonical_readString hpath)

theorem canonical_readCall : Canonical writeCall readCall := by
  intro left c rest h
  obtain ⟨exportPath, mid, hpath, h⟩ := Reader.bind_ok h
  obtain ⟨argsBlob, last, hargs, h⟩ := Reader.bind_ok h
  cases h
  exact (canonical_readString _ _ _ hpath).append (canonical_readValueBlob _ _ _ hargs)

/-- Nothing is left over. -/
theorem assertDone_left {left rest : Blob} {u : Unit} (h : PayloadReader.assertDone left = .ok (u, rest)) :
    left = [] ∧ rest = [] := by
  obtain ⟨n, mid, hn, h⟩ := Reader.bind_ok h
  cases hn
  split at h
  · cases h
  · next hlen =>
    cases h
    have hnil := List.eq_nil_of_length_eq_zero (not_ne_iff.mp hlen)
    exact ⟨hnil, hnil⟩

/-! ### Payloads -/

/-- A run as the client spells it, with the limits it sent. -/
def RunRequest.wire (r : RunRequest) (limits : WireResourceLimits) : RunPayloadOptions where
  runId := r.runId
  code := r.code
  filename := r.filename
  limits := some limits
  globals := some (r.globals.map HostGlobalDef.wire)
  imports := some r.imports
  call := r.call

def PrecompilePayload.wire (p : PrecompilePayload) (limits : WireResourceLimits) :
    PrecompilePayloadOptions where
  requestId := p.requestId
  code := p.code
  filename := p.filename
  limits := some limits
  globals := some (p.globals.map HostGlobalDef.wire)
  imports := some p.imports

def PrefixRunRequest.wire (r : PrefixRunRequest) (limits : WireResourceLimits) :
    PrefixRunPayloadOptions where
  runId := r.runId
  prefixId := r.prefixId
  limits := some limits
  globals := some (r.globals.map HostGlobalDef.wire)
  importRebinds := some r.importRebinds
  call := r.call

/-- `u32 runId, u32 streamId, bool ok, Optional<String> error` (when not `ok`). -/
def writeStreamEnd (runId : Nat) (p : StreamEndPayload) : Written :=
  writeU32 runId ++ (writeU32 p.streamId ++ (writeBool p.ok ++
    if p.ok then Written.bytes [] else writeOptionalString p.error))

theorem run_accepted {bytes : Blob} {r : RunRequest} (h : parseRunPayload.run bytes = .ok r) :
    ∃ limits, resolveLimits limits .strict = r.limits ∧ encodeRunPayload (r.wire limits) = some bytes := by
  obtain ⟨rest, h⟩ := Reader.run_ok h
  obtain ⟨runId, left₁, hrunId, h⟩ := Reader.bind_ok h
  obtain ⟨code, left₂, hcode, h⟩ := Reader.bind_ok h
  obtain ⟨filename, left₃, hfilename, h⟩ := Reader.bind_ok h
  obtain ⟨limits, left₄, hlimits, h⟩ := Reader.bind_ok h
  obtain ⟨globals, left₅, hglobals, h⟩ := Reader.bind_ok h
  obtain ⟨imports, left₆, himports, h⟩ := Reader.bind_ok h
  obtain ⟨call, left₇, hcall, h⟩ := Reader.bind_ok h
  obtain ⟨u, left₈, hdone, h⟩ := Reader.bind_ok h
  cases h
  obtain ⟨rfl, rfl⟩ := assertDone_left hdone
  obtain ⟨sent, hsent, hlimits⟩ := readResourceLimits_ok hlimits
  refine ⟨sent, hsent, Begins.all ?_⟩
  exact (canonical_readU32 _ _ _ hrunId).append ((canonical_readString _ _ _ hcode).append
    ((canonical_readOptional canonical_readString _ _ _ hfilename).append (hlimits.append
      ((readGlobalDefs_ok hglobals).append ((canonical_readImportBindings _ _ _ himports).append
        (canonical_readOptional canonical_readCall _ _ _ hcall))))))

theorem precompile_accepted {bytes : Blob} {p : PrecompilePayload}
    (h : parsePrecompilePayload.run bytes = .ok p) :
    ∃ limits, encodePrecompilePayload (p.wire limits) = some bytes := by
  obtain ⟨rest, h⟩ := Reader.run_ok h
  obtain ⟨requestId, left₁, hid, h⟩ := Reader.bind_ok h
  obtain ⟨code, left₂, hcode, h⟩ := Reader.bind_ok h
  obtain ⟨filename, left₃, hfilename, h⟩ := Reader.bind_ok h
  obtain ⟨limits, left₄, hlimits, h⟩ := Reader.bind_ok h
  obtain ⟨globals, left₅, hglobals, h⟩ := Reader.bind_ok h
  obtain ⟨imports, left₆, himports, h⟩ := Reader.bind_ok h
  obtain ⟨u, left₇, hdone, h⟩ := Reader.bind_ok h
  cases h
  obtain ⟨rfl, rfl⟩ := assertDone_left hdone
  obtain ⟨sent, -, hlimits⟩ := readResourceLimits_ok hlimits
  refine ⟨sent, Begins.all ?_⟩
  exact (canonical_readU32 _ _ _ hid).append ((canonical_readString _ _ _ hcode).append
    ((canonical_readOptional canonical_readString _ _ _ hfilename).append (hlimits.append
      ((readGlobalDefs_ok hglobals).append (canonical_readImportBindings _ _ _ himports)))))

theorem prefixRun_accepted {bytes : Blob} {r : PrefixRunRequest}
    (h : parsePrefixRunPayload.run bytes = .ok r) :
    ∃ limits, resolveLimits limits .managed = r.limits ∧
      encodePrefixRunPayload (r.wire limits) = some bytes := by
  obtain ⟨rest, h⟩ := Reader.run_ok h
  obtain ⟨runId, left₁, hid, h⟩ := Reader.bind_ok h
  obtain ⟨prefixId, left₂, hprefix, h⟩ := Reader.bind_ok h
  obtain ⟨limits, left₃, hlimits, h⟩ := Reader.bind_ok h
  obtain ⟨globals, left₄, hglobals, h⟩ := Reader.bind_ok h
  obtain ⟨rebinds, left₅, hrebinds, h⟩ := Reader.bind_ok h
  obtain ⟨call, left₆, hcall, h⟩ := Reader.bind_ok h
  obtain ⟨u, left₇, hdone, h⟩ := Reader.bind_ok h
  cases h
  obtain ⟨rfl, rfl⟩ := assertDone_left hdone
  obtain ⟨sent, hsent, hlimits⟩ := readResourceLimits_ok hlimits
  refine ⟨sent, hsent, Begins.all ?_⟩
  exact (canonical_readU32 _ _ _ hid).append ((canonical_readString _ _ _ hprefix).append
    (hlimits.append ((readGlobalDefs_ok hglobals).append
      ((canonical_readImportRebinds _ _ _ hrebinds).append (canonical_readCall _ _ _ hcall)))))

theorem disposePrefix_accepted {bytes : Blob} {prefixId : String}
    (h : parseDisposePrefixPayload.run bytes = .ok prefixId) :
    encodeDisposePrefixPayload prefixId = some bytes := by
  obtain ⟨rest, h⟩ := Reader.run_ok h
  obtain ⟨id, left₁, hid, h⟩ := Reader.bind_ok h
  obtain ⟨u, left₂, hdone, h⟩ := Reader.bind_ok h
  cases h
  obtain ⟨rfl, rfl⟩ := assertDone_left hdone
  exact (canonical_readString _ _ _ hid).all

theorem terminate_accepted {bytes : Blob} {runId : Nat} {mode : TerminateMode}
    (h : parseTerminatePayload.run bytes = .ok (runId, mode)) :
    encodeTerminatePayload runId (decide (mode = .hard)) = some bytes := by
  obtain ⟨rest, h⟩ := Reader.run_ok h
  obtain ⟨id, left₁, hid, h⟩ := Reader.bind_ok h
  obtain ⟨b, left₂, hb, h⟩ := Reader.bind_ok h
  have hbyte := begins_readU8 hb
  have hend : ∀ {m : TerminateMode} {left : Blob},
      (PayloadReader.assertDone >>= fun _ => pure (id, m) : PayloadReader.Read _) left =
        .ok ((runId, mode), rest) → (id, m) = (runId, mode) ∧ left = [] := by
    intro m left h
    obtain ⟨u, left₃, hdone, h⟩ := Reader.bind_ok h
    cases h
    exact ⟨rfl, (assertDone_left hdone).1⟩
  generalize b.toNat = n at h hbyte
  rcases n with _ | _ | n
  · obtain ⟨heq, rfl⟩ := hend h
    cases heq
    exact ((canonical_readU32 _ _ _ hid).append hbyte).all
  · obtain ⟨heq, rfl⟩ := hend h
    cases heq
    exact ((canonical_readU32 _ _ _ hid).append hbyte).all
  · cases h

theorem streamChunk_accepted {bytes : Blob} {streamId : Nat} {data : Blob}
    (h : parseStreamChunkPayload.run bytes = .ok (streamId, data)) :
    ∃ runId, encodeStreamChunkPayload runId streamId data = some bytes := by
  obtain ⟨rest, h⟩ := Reader.run_ok h
  unfold parseStreamChunkPayload at h
  split at h
  · next a b c d e f g i j k l m data' h =>
    dsimp only at h
    split at h
    · cases h
    · split at h
      · cases h
      · next hlen =>
        cases h
        refine ⟨ofU32be a b c d, ?_⟩
        rw [encodeStreamChunkPayload, not_ne_iff.mp hlen, writeU32_fits (ofU32be_lt _ _ _ _),
          writeU32_fits (ofU32be_lt _ _ _ _), writeU32_fits (ofU32be_lt _ _ _ _), u32be_ofU32be,
          u32be_ofU32be, u32be_ofU32be]
        rfl
  · cases h

theorem streamEnd_accepted {bytes : Blob} {p : StreamEndPayload}
    (h : parseStreamEndPayload.run bytes = .ok p) : ∃ runId, writeStreamEnd runId p = some bytes := by
  obtain ⟨rest, h⟩ := Reader.run_ok h
  obtain ⟨runId, left₁, hrunId, h⟩ := Reader.bind_ok h
  obtain ⟨streamId, left₂, hstreamId, h⟩ := Reader.bind_ok h
  obtain ⟨ok, left₃, hok, h⟩ := Reader.bind_ok h
  refine ⟨runId, Begins.all ?_⟩
  cases ok with
  | true =>
    obtain ⟨error, left₄, herror, h⟩ := Reader.bind_ok h
    cases herror
    obtain ⟨u, left₅, hdone, h⟩ := Reader.bind_ok h
    cases h
    obtain ⟨rfl, rfl⟩ := assertDone_left hdone
    exact (canonical_readU32 _ _ _ hrunId).append ((canonical_readU32 _ _ _ hstreamId).append
      ((canonical_readBool _ _ _ hok).append (Begins.nil [])))
  | false =>
    obtain ⟨error, left₄, herror, h⟩ := Reader.bind_ok h
    obtain ⟨u, left₅, hdone, h⟩ := Reader.bind_ok h
    cases h
    obtain ⟨rfl, rfl⟩ := assertDone_left hdone
    exact (canonical_readU32 _ _ _ hrunId).append ((canonical_readU32 _ _ _ hstreamId).append
      ((canonical_readBool _ _ _ hok).append
        (canonical_readOptional canonical_readString _ _ _ herror)))

theorem streamPull_accepted {bytes : Blob} {streamId credit : Nat}
    (h : parseStreamPullPayload.run bytes = .ok (streamId, credit)) :
    ∃ runId, encodeStreamPullPayload runId streamId credit = some bytes := by
  obtain ⟨rest, h⟩ := Reader.run_ok h
  obtain ⟨runId, left₁, hrunId, h⟩ := Reader.bind_ok h
  obtain ⟨id, left₂, hid, h⟩ := Reader.bind_ok h
  obtain ⟨n, left₃, hn, h⟩ := Reader.bind_ok h
  obtain ⟨u, left₄, hdone, h⟩ := Reader.bind_ok h
  cases h
  obtain ⟨rfl, rfl⟩ := assertDone_left hdone
  exact ⟨runId, ((canonical_readU32 _ _ _ hrunId).append ((canonical_readU32 _ _ _ hid).append
    (canonical_readU32 _ _ _ hn))).all⟩

theorem streamCancel_accepted {bytes : Blob} {streamId : Nat} {reason : String}
    (h : parseStreamCancelPayload.run bytes = .ok (streamId, reason)) :
    ∃ runId, encodeStreamCancelPayload runId streamId reason = some bytes := by
  obtain ⟨rest, h⟩ := Reader.run_ok h
  obtain ⟨runId, left₁, hrunId, h⟩ := Reader.bind_ok h
  obtain ⟨id, left₂, hid, h⟩ := Reader.bind_ok h
  obtain ⟨text, left₃, htext, h⟩ := Reader.bind_ok h
  obtain ⟨u, left₄, hdone, h⟩ := Reader.bind_ok h
  cases h
  obtain ⟨rfl, rfl⟩ := assertDone_left hdone
  exact ⟨runId, ((canonical_readU32 _ _ _ hrunId).append ((canonical_readU32 _ _ _ hid).append
    (canonical_readString _ _ _ htext))).all⟩

/-! ### The handshake -/

/-- The header of a handshake, its probe, and what follows. -/
theorem handshake_header {bytes : Blob} (h : 6 ≤ bytes.length) :
    ∃ a b c d e f body, bytes = a :: b :: c :: d :: e :: f :: body := by
  iterate 6
    rcases bytes with _ | ⟨_, bytes⟩
    · simp at h
  exact ⟨_, _, _, _, _, _, _, rfl⟩

theorem handshake_token {body : Blob} {n : Nat} (h : n + 4 ≤ body.length) :
    ∃ probe g i j k token, body = probe ++ g :: i :: j :: k :: token ∧ probe.length = n := by
  obtain ⟨rest, hrest⟩ : ∃ rest, rest = body.drop n := ⟨_, rfl⟩
  have hlen : 4 ≤ rest.length := by
    rw [hrest, List.length_drop]
    omega
  have hbody := List.take_append_drop n body
  rw [← hrest] at hbody
  iterate 4
    rcases rest with _ | ⟨_, rest⟩
    · simp at hlen
  exact ⟨_, _, _, _, _, _, hbody.symm, List.length_take_of_le (by omega)⟩

/-- The handshake parser faults on no payload, and accepts encodings only. -/
theorem authenticate_accepted (payload : BorrowedBytes) :
    (∃ e, parseAuthenticatePayload payload = .error (.error e)) ∨
      ∃ auth, parseAuthenticatePayload payload = .ok auth ∧ encodeAuthenticatePayload auth = payload.bytes := by
  by_cases hlen : payload.bytes.length < 6
  · exact Or.inl ⟨_, if_pos hlen⟩
  obtain ⟨a, b, c, d, e, f, body, hbytes⟩ := handshake_header (Nat.not_lt.mp hlen)
  have hprobeLen := ofU32be_lt c d e f
  have hdrop : ∀ n, payload.bytes.drop n = (a :: b :: c :: d :: e :: f :: body).drop n :=
    fun n => congrArg (List.drop n) hbytes
  have hmajor : (payload.index 0 : Except (Fault IoError) UInt8) = .ok a := BorrowedBytes.index_ok (hdrop 0)
  have hminor : (payload.index 1 : Except (Fault IoError) UInt8) = .ok b := BorrowedBytes.index_ok (hdrop 1)
  have hheader : (payload.range 2 6 : Except (Fault IoError) Blob) = .ok [c, d, e, f] := by
    have hrange : (payload.range 2 (2 + 4) : Except (Fault IoError) Blob) =
        .ok ((payload.bytes.drop 2).take 4) :=
      BorrowedBytes.range_ok (by rw [List.length_drop]; omega) (by omega)
    rw [hrange, hbytes]
    rfl
  have hend : (BorrowedBytes.add (6 + ofU32be c d e f) 4 : Except (Fault IoError) Nat) =
      .ok (6 + ofU32be c d e f + 4) := BorrowedBytes.add_ok (by omega)
  have hfrom : ∀ p q r s : UInt8, (BorrowedBytes.fromBeBytes [p, q, r, s] : Except (Fault IoError) Nat) =
      .ok (ofU32be p q r s) := fun _ _ _ _ => rfl
  rw [parseAuthenticatePayload, if_neg hlen, hmajor, BorrowedBytes.ok_bind, hminor, BorrowedBytes.ok_bind, hheader,
    BorrowedBytes.ok_bind, hfrom, BorrowedBytes.ok_bind, if_neg (by omega), hend, BorrowedBytes.ok_bind]
  by_cases hprobe : payload.bytes.length < 6 + ofU32be c d e f + 4
  · exact Or.inl ⟨_, if_pos hprobe⟩
  have hbody : ofU32be c d e f + 4 ≤ body.length := by
    rw [hbytes] at hprobe
    simp only [List.length_cons] at hprobe
    omega
  obtain ⟨probe, g, i, j, k, token, rfl, hn⟩ := handshake_token hbody
  have hsix : payload.bytes.drop 6 = probe ++ g :: i :: j :: k :: token := hdrop 6
  have htail : payload.bytes.drop (6 + ofU32be c d e f) = g :: i :: j :: k :: token := by
    rw [← List.drop_drop, hsix, ← hn, List.drop_left]
  have htotal : payload.bytes.length = 6 + ofU32be c d e f + 4 + token.length := by
    rw [hbytes, ← hn]
    simp only [List.length_cons, List.length_append]
    omega
  have hprobeRange : (payload.range 6 (6 + ofU32be c d e f) : Except (Fault IoError) Blob) = .ok probe := by
    rw [BorrowedBytes.range_ok (by rw [List.length_drop]; omega) (by omega), hsix, ← hn, List.take_left]
  have hlength : (payload.range (6 + ofU32be c d e f) (6 + ofU32be c d e f + 4) :
      Except (Fault IoError) Blob) = .ok [g, i, j, k] := by
    rw [BorrowedBytes.range_ok (by rw [List.length_drop]; omega) (by omega), htail]
    rfl
  rw [if_neg hprobe, hprobeRange, BorrowedBytes.ok_bind, hlength, BorrowedBytes.ok_bind, hfrom, BorrowedBytes.ok_bind]
  by_cases htoken : ofU32be g i j k ≠ descriptorTokenLen
  · exact Or.inl ⟨_, if_pos htoken⟩
  have htokenLen : ofU32be g i j k = descriptorTokenLen := not_ne_iff.mp htoken
  have hsum : (BorrowedBytes.add (6 + ofU32be c d e f + 4) descriptorTokenLen : Except (Fault IoError) Nat) =
      .ok (6 + ofU32be c d e f + 4 + descriptorTokenLen) := by
    have hsmall : descriptorTokenLen = 16 := rfl
    exact BorrowedBytes.add_ok (by omega)
  rw [if_neg htoken, htokenLen, hsum, BorrowedBytes.ok_bind]
  by_cases hshort : payload.bytes.length < 6 + ofU32be c d e f + 4 + descriptorTokenLen
  · exact Or.inl ⟨_, if_pos hshort⟩
  rw [if_neg hshort]
  by_cases htrailing : 6 + ofU32be c d e f + 4 + descriptorTokenLen ≠ payload.bytes.length
  · exact Or.inl ⟨_, if_pos htrailing⟩
  have hsize : token.length = descriptorTokenLen := by omega
  have hlast : (payload.range (6 + ofU32be c d e f + 4) (6 + ofU32be c d e f + 4 + descriptorTokenLen) :
      Except (Fault IoError) Blob) = .ok token := by
    rw [BorrowedBytes.range_ok (by rw [List.length_drop]; omega) (by omega), ← List.drop_drop, htail, ← hsize]
    exact congrArg Except.ok (List.take_of_length_le (Nat.le_refl token.length))
  rw [if_neg htrailing, hlast]
  refine Or.inr ⟨_, rfl, ?_⟩
  have hbyte : ∀ (n : Nat) (x : UInt8), n % 256 = x.toNat → UInt8.ofNat n = x := by
    intro n x h
    exact UInt8.toNat_inj.mp (by simpa using h)
  have ha := a.toNat_lt
  have hb := b.toNat_lt
  show [UInt8.ofNat ((a.toNat * 256 + b.toNat) / 256), UInt8.ofNat (a.toNat * 256 + b.toNat)] ++
    (u32be probe.length ++ (probe ++ (u32be token.length ++ token))) = payload.bytes
  rw [hbytes, hsize, ← htokenLen, hn, u32be_ofU32be, u32be_ofU32be, hbyte _ a (by omega),
    hbyte _ b (by omega)]
  rfl

/-! ### All payloads -/

namespace ParsedMessage

/-- The payload that spells a value out, with what its parser resolves or drops. -/
def spell (limits : WireResourceLimits) (runId : Nat) : ParsedMessage → Written
  | .run r => encodeRunPayload (r.wire limits)
  | .precompile p => encodePrecompilePayload (p.wire limits)
  | .prefixRun r => encodePrefixRunPayload (r.wire limits)
  | .disposePrefix prefixId => encodeDisposePrefixPayload prefixId
  | .terminate id mode => encodeTerminatePayload id (decide (mode = .hard))
  | .bridgeResponse id callId answer => encodeBridgeResponsePayload id callId (answer.mapError some)
  | .streamChunk streamId data => encodeStreamChunkPayload runId streamId data
  | .streamEnd p => writeStreamEnd runId p
  | .streamPull streamId credit => encodeStreamPullPayload runId streamId credit
  | .streamCancel streamId reason => encodeStreamCancelPayload runId streamId reason

/-- The limits of a value are those sent, resolved. -/
def Resolves (limits : WireResourceLimits) : ParsedMessage → Prop
  | .run r => resolveLimits limits .strict = r.limits
  | .prefixRun r => resolveLimits limits .managed = r.limits
  | _ => True

end ParsedMessage

theorem parsePayload_ok {α : Type} {g : α → ParsedMessage} {r : PayloadReader.Read α} {bytes : Blob}
    {m : ParsedMessage} (h : (g <$> r).run bytes = .ok m) : ∃ a, r.run bytes = .ok a ∧ g a = m := by
  obtain ⟨rest, h⟩ := Reader.run_ok h
  obtain ⟨a, ha, rfl⟩ := Reader.map_ok h
  refine ⟨a, ?_, rfl⟩
  show (·.1) <$> r bytes = _
  rw [ha]
  rfl

/-- An accepted payload is spelled by its value. -/
theorem parsePayload_spell {type : MessageType} {bytes : Blob} {m : ParsedMessage}
    (htype : type ≠ .bridgeResponse) (h : parsePayload type bytes = .ok m) :
    ∃ limits runId, m.Resolves limits ∧ m.spell limits runId = some bytes := by
  cases type with
  | run =>
    obtain ⟨r, hr, rfl⟩ := parsePayload_ok h
    obtain ⟨limits, hlimits, hspell⟩ := run_accepted hr
    exact ⟨limits, 0, hlimits, hspell⟩
  | precompile =>
    obtain ⟨p, hp, rfl⟩ := parsePayload_ok h
    obtain ⟨limits, hspell⟩ := precompile_accepted hp
    exact ⟨limits, 0, trivial, hspell⟩
  | prefixRun =>
    obtain ⟨r, hr, rfl⟩ := parsePayload_ok h
    obtain ⟨limits, hlimits, hspell⟩ := prefixRun_accepted hr
    exact ⟨limits, 0, hlimits, hspell⟩
  | disposePrefix =>
    obtain ⟨id, hid, rfl⟩ := parsePayload_ok h
    exact ⟨{}, 0, trivial, disposePrefix_accepted hid⟩
  | terminate =>
    obtain ⟨p, hp, rfl⟩ := parsePayload_ok h
    exact ⟨{}, 0, trivial, terminate_accepted hp⟩
  | bridgeResponse => exact absurd rfl htype
  | streamChunk =>
    obtain ⟨p, hp, rfl⟩ := parsePayload_ok h
    obtain ⟨runId, hspell⟩ := streamChunk_accepted hp
    exact ⟨{}, runId, trivial, hspell⟩
  | streamEnd =>
    obtain ⟨p, hp, rfl⟩ := parsePayload_ok h
    obtain ⟨runId, hspell⟩ := streamEnd_accepted hp
    exact ⟨{}, runId, trivial, hspell⟩
  | streamPull =>
    obtain ⟨p, hp, rfl⟩ := parsePayload_ok h
    obtain ⟨runId, hspell⟩ := streamPull_accepted hp
    exact ⟨{}, runId, trivial, hspell⟩
  | streamCancel =>
    obtain ⟨p, hp, rfl⟩ := parsePayload_ok h
    obtain ⟨runId, hspell⟩ := streamCancel_accepted hp
    exact ⟨{}, runId, trivial, hspell⟩

/-- No parser faults, whatever the payload; and what it accepts, the answers to
bridge calls apart, is spelled by the value it gives, the limits as they were sent
and the run id of a stream frame. -/
theorem accepted_payloads :
    (∀ (type : MessageType) (payload : BorrowedBytes), (∃ m, IndexedPayload.parse type payload = .ok m) ∨
      ∃ e, IndexedPayload.parse type payload = .error (.error e)) ∧
    (∀ (type : MessageType) (payload : BorrowedBytes) (m : ParsedMessage), type ≠ .bridgeResponse →
      IndexedPayload.parse type payload = .ok m →
      ∃ limits runId, m.Resolves limits ∧ m.spell limits runId = some payload.bytes) ∧
    ∀ payload : BorrowedBytes, (∃ e, parseAuthenticatePayload payload = .error (.error e)) ∨
      ∃ auth, parseAuthenticatePayload payload = .ok auth ∧
        encodeAuthenticatePayload auth = payload.bytes := by
  refine ⟨fun type payload => ?_, fun type payload m htype h => ?_, authenticate_accepted⟩
  · rw [IndexedPayload.parse_eq]
    cases parsePayload type payload.bytes with
    | ok m => exact Or.inl ⟨m, rfl⟩
    | error e => exact Or.inr ⟨e, rfl⟩
  · rw [IndexedPayload.parse_eq] at h
    refine parsePayload_spell htype ?_
    cases hread : parsePayload type payload.bytes with
    | ok m' =>
      rw [hread] at h
      cases h
      rfl
    | error e =>
      rw [hread] at h
      cases h

/-- Two grants of the same credit to the same stream id of two runs. -/
def pullOfRun (runId : UInt8) : BorrowedBytes := ⟨[0, 0, 0, runId, 0, 0, 0, 5, 0, 0, 0, 9], by simp⟩

/-- The router reads the run id of a stream frame, the parser drops it. -/
theorem parse_not_injective : ¬ ∀ (type : MessageType) (p q : BorrowedBytes) (m : ParsedMessage),
    IndexedPayload.parse type p = .ok m → IndexedPayload.parse type q = .ok m → p.bytes = q.bytes := by
  intro h
  have heq := h .streamPull (pullOfRun 1) (pullOfRun 2) (.streamPull 5 9) rfl rfl
  exact absurd heq (by decide)

end Ipc

end Iso4
