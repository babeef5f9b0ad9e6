import AccountLogUi.Reference.Basic

/-!
# The reference crates keep the laws

`logLaws`, `accountLaws` and `vaultLaws`: what the app relies on its crates for can be relied on
here.  The work is in the format.  Decoding an entry is undone by encoding it
(`decodeEntry_bytes`), reads no further than the entry (`decodeEntry_append`), and undoes the
encoding of every entry a draft takes (`decodeEntry_entryBytes`).
-/

namespace AccountLogUi.Reference

/-! ### Decoding -/

theorem entryBytes_length (entry : AccountEntry) : 3 ≤ (entryBytes entry).length := by
  cases entry <;> simp [entryBytes, frame]

/-- The bytes decoded are the entry's own, and what is left. -/
theorem decodeEntry_bytes {bytes rest : List UInt8} {entry : AccountEntry}
    (h : decodeEntry bytes = some (entry, rest)) : bytes = entryBytes entry ++ rest := by
  unfold decodeEntry at h
  split at h
  · next opcode hi lo body =>
    dsimp only at h
    split_ifs at h with hsize
    split at h
    · next entry' hentry =>
      split_ifs at h with hcanon
      obtain ⟨rfl, rfl⟩ := Prod.mk.inj (Option.some.inj h)
      rw [hcanon]
      simp
    · cases h
  · cases h

/-- Decoding an entry reads no further than its own bytes. -/
theorem decodeEntry_append {bytes rest : List UInt8} {entry : AccountEntry}
    (h : decodeEntry bytes = some (entry, rest)) (more : List UInt8) :
    decodeEntry (bytes ++ more) = some (entry, rest ++ more) := by
  unfold decodeEntry at h
  split at h
  · next opcode hi lo body =>
    dsimp only at h
    split_ifs at h with hsize
    have htake : (body ++ more).take (hi.toNat * 256 + lo.toNat) =
        body.take (hi.toNat * 256 + lo.toNat) := List.take_append_of_le_length hsize
    have hdrop : (body ++ more).drop (hi.toNat * 256 + lo.toNat) =
        body.drop (hi.toNat * 256 + lo.toNat) ++ more := List.drop_append_of_le_length hsize
    have hsize' : hi.toNat * 256 + lo.toNat ≤ (body ++ more).length := by
      rw [List.length_append]
      omega
    split at h
    · next entry' hentry =>
      split_ifs at h with hcanon
      obtain ⟨rfl, rfl⟩ := Prod.mk.inj (Option.some.inj h)
      simp only [decodeEntry, List.cons_append, htake, hdrop, hsize', if_true, hentry, hcanon]
    · cases h
  · cases h

theorem decodeEntries_bytes {fuel : ℕ} {bytes : List UInt8} {entries : List AccountEntry}
    (h : decodeEntries fuel bytes = some entries) : bytes = entries.flatMap entryBytes := by
  induction fuel generalizing bytes entries with
  | zero =>
    cases bytes with
    | nil => cases h; rfl
    | cons b bytes => cases h
  | succ fuel ih =>
    cases bytes with
    | nil => cases h; rfl
    | cons b bytes =>
      simp only [decodeEntries, Option.bind_eq_bind, Option.bind_eq_some_iff, Option.pure_def,
        Option.some.injEq] at h
      obtain ⟨⟨entry, rest⟩, hentry, entries', hrest, rfl⟩ := h
      have hrest' : rest = entries'.flatMap entryBytes := ih hrest
      rw [decodeEntry_bytes hentry, hrest', List.flatMap_cons]

/-- Bytes that start others spell entries that start the others'. -/
theorem decodeEntries_prefix {fuel fuel' : ℕ} {bytes bytes' : List UInt8}
    {entries entries' : List AccountEntry} (h : decodeEntries fuel bytes = some entries)
    (h' : decodeEntries fuel' bytes' = some entries') (hp : bytes <+: bytes') :
    entries <+: entries' := by
  induction fuel generalizing fuel' bytes bytes' entries entries' with
  | zero =>
    cases bytes with
    | nil => cases h; exact List.nil_prefix
    | cons b bytes => cases h
  | succ fuel ih =>
    cases bytes with
    | nil => cases h; exact List.nil_prefix
    | cons b bytes =>
      obtain ⟨more, rfl⟩ := hp
      simp only [decodeEntries, Option.bind_eq_bind, Option.bind_eq_some_iff, Option.pure_def,
        Option.some.injEq] at h
      obtain ⟨⟨entry, rest⟩, hentry, rests, hrest, rfl⟩ := h
      have hentry' := decodeEntry_append hentry more
      cases fuel' with
      | zero => cases h'
      | succ fuel' =>
        rw [List.cons_append] at h' hentry'
        simp only [decodeEntries, Option.bind_eq_bind, Option.bind_eq_some_iff, Option.pure_def,
          Option.some.injEq] at h'
        obtain ⟨⟨entry₂, rest₂⟩, hentry₂, rests₂, hrest₂, rfl⟩ := h'
        rw [hentry', Option.some.injEq, Prod.mk.injEq] at hentry₂
        obtain ⟨rfl, rfl⟩ := hentry₂
        exact List.cons_prefix_cons.mpr ⟨rfl, ih hrest hrest₂ (List.prefix_append _ _)⟩

/-! ### What is encoded decodes -/

/-- An entry a draft takes as the entry of this index. -/
def Sound (index : ℕ) : AccountEntry → Prop
  | .add context data => fitsFrame context data = true
  | .remove target => target < index
  | .unknown _ _ => False

theorem textOf_textBytes (text : String) : textOf (textBytes text) = some text := by
  unfold textOf textBytes String.fromUTF8?
  exact dif_pos text.isValidUTF8

theorem dataOf_dataBytes {context : Context} {data : EntryData}
    (h : fitsFrame context data = true) :
    dataOf (dataBytes data) = some data := by
  cases data with
  | ed25519Key key => simp [dataBytes, dataOf, key.length_eq]
  | text value => simp [dataBytes, dataOf, textOf_textBytes]
  | other tag body =>
    simp only [fitsFrame, Bool.and_eq_true, decide_eq_true_eq] at h
    simp [dataBytes, dataOf, h.2.1, h.2.2]

theorem entryOf_addBytes {context : Context} {data : EntryData}
    (h : fitsFrame context data = true) :
    entryOf 1 (addBytes context data) = some (.add context data) := by
  have hsize : (UInt8.ofNat (textBytes context).length).toNat = (textBytes context).length := by
    simp only [fitsFrame, Bool.and_eq_true, decide_eq_true_eq] at h
    rw [UInt8.toNat_ofNat']
    omega
  unfold entryOf addBytes
  simp only [if_true, List.cons_append]
  rw [hsize, List.take_left', List.drop_left', textOf_textBytes, dataOf_dataBytes h]
  · rfl
  · rfl
  · rfl

theorem entryOf_be32 {index : ℕ} (h : index < 2 ^ 32) :
    entryOf 2 (be32 index) = some (.remove index) := by
  have hbytes : (((index / 2 ^ 24 % 256 * 256 + index / 2 ^ 16 % 256) * 256 +
      index / 2 ^ 8 % 256) * 256 + index % 256) = index := by omega
  unfold entryOf be32
  simp only [UInt8.toNat_ofNat', show (2 : UInt8) ≠ 1 by decide, if_false, if_true]
  rw [show 2 ^ 8 = 256 from rfl] at *
  rw [hbytes]

/-- An entry a draft takes decodes from its bytes. -/
theorem decodeEntry_entryBytes {index : ℕ} {entry : AccountEntry} (hsound : Sound index entry)
    (hindex : index ≤ 2 ^ 32) : decodeEntry (entryBytes entry) = some (entry, []) := by
  have hframe : ∀ opcode body, body.length < 65536 → entryOf opcode body = some entry →
      entryBytes entry = frame opcode body →
        decodeEntry (frame opcode body) = some (entry, []) := by
    intro opcode body hlen hentry hbytes
    have hsize : (UInt8.ofNat (body.length / 256)).toNat * 256 + (UInt8.ofNat body.length).toNat =
        body.length := by
      simp only [UInt8.toNat_ofNat']
      omega
    rw [frame] at hbytes ⊢
    simp only [decodeEntry, hsize, le_refl, if_true, List.take_length, hentry, hbytes,
      List.drop_length]
  cases entry with
  | add context data =>
    have hlen : (addBytes context data).length < 65536 := by
      simp only [Sound, fitsFrame, Bool.and_eq_true, decide_eq_true_eq] at hsound
      exact hsound.1.2
    exact hframe 1 _ hlen (entryOf_addBytes hsound) rfl
  | remove target =>
    have htarget : target < index := hsound
    exact hframe 2 _ (by simp [be32]) (entryOf_be32 (by omega)) rfl
  | unknown opcode body => cases hsound

theorem decodeEntries_flatMap {start fuel : ℕ} {entries : List AccountEntry}
    (hsound : ∀ i entry, entries[i]? = some entry → Sound (start + i) entry)
    (hcount : start + entries.length ≤ 2 ^ 32) (hfuel : entries.length ≤ fuel) :
    decodeEntries fuel (entries.flatMap entryBytes) = some entries := by
  induction entries generalizing start fuel with
  | nil => cases fuel <;> rfl
  | cons entry entries ih =>
    cases fuel with
    | zero => simp at hfuel
    | succ fuel =>
      simp only [List.length_cons] at hcount hfuel
      have hentry := decodeEntry_entryBytes (hsound 0 entry rfl) (by omega)
      have hhead := decodeEntry_append hentry (entries.flatMap entryBytes)
      rw [List.nil_append] at hhead
      have hne : ∃ b bytes, entryBytes entry ++ entries.flatMap entryBytes = b :: bytes := by
        have := entryBytes_length entry
        cases hb : entryBytes entry with
        | nil => simp [hb] at this
        | cons b bytes => exact ⟨b, _, rfl⟩
      have htail : ∀ i e, entries[i]? = some e → Sound (start + 1 + i) e := by
        intro i e he
        have h := hsound (i + 1) e (by simpa using he)
        rwa [show start + (i + 1) = start + 1 + i by omega] at h
      have hrest : decodeEntries fuel (entries.flatMap entryBytes) = some entries :=
        ih htail (by omega) (by omega)
      rw [List.flatMap_cons]
      obtain ⟨b, bytes, hb⟩ := hne
      rw [hb] at hhead ⊢
      simp only [decodeEntries, hhead, Option.bind_eq_bind, Option.bind_some, hrest,
        Option.pure_def]

/-! ### Drafts -/

theorem keyLive_eq_false {entries : List AccountEntry} {key : Bytes32} :
    keyLive entries key = false ↔
      ∀ index context, entries[index]? = some (.add context (.ed25519Key key)) →
        isLive entries index = false := by
  unfold keyLive
  rw [List.any_eq_false]
  constructor
  · intro h index context hentry
    have hthis := h ⟨index, _⟩ (mem_indexed.mpr hentry)
    simpa using hthis
  · rintro h ⟨index, entry⟩ hmem hlive
    have hentry := mem_indexed.mp hmem
    rw [Bool.and_eq_true] at hlive
    obtain ⟨hlive, hkey⟩ := hlive
    rcases entry with ⟨context, key' | _ | _⟩ | _ | _
    · obtain rfl := of_decide_eq_true hkey
      rw [h index context hentry] at hlive
      cases hlive
    all_goals cases hkey

/-- What a draft takes goes to its end, and is sound there. -/
theorem push_ok {draft draft' : AccountLogDraft} {entry : AccountEntry}
    (h : push draft entry = .ok draft') :
    draft' = ⟨draft.entries ++ [entry]⟩ ∧ Sound draft.entries.length entry := by
  unfold push at h
  split at h
  · next context data =>
    split at h
    · cases h
    · next hfits =>
      have hfits' : fitsFrame context data = true := by simpa using hfits
      split at h
      · cases h
      · cases h
        exact ⟨rfl, hfits'⟩
  · next index =>
    split at h
    · next hlive =>
      cases h
      exact ⟨rfl, isLive_lt hlive⟩
    · cases h
  · cases h

theorem foldlM_push {entries : List AccountEntry} {draft draft' : AccountLogDraft}
    (h : entries.foldlM push draft = .ok draft') :
    draft' = ⟨draft.entries ++ entries⟩ ∧
      ∀ i entry, entries[i]? = some entry → Sound (draft.entries.length + i) entry := by
  induction entries generalizing draft with
  | nil => cases h; exact ⟨by simp, by simp⟩
  | cons entry entries ih =>
    rw [List.foldlM_cons] at h
    cases hp : push draft entry with
    | error e => rw [hp] at h; cases h
    | ok d =>
      rw [hp] at h
      obtain ⟨rfl, hsound⟩ := push_ok hp
      obtain ⟨rfl, hrest⟩ := ih h
      refine ⟨by simp, fun i e he => ?_⟩
      cases i with
      | zero =>
        obtain rfl : entry = e := by simpa using he
        exact hsound
      | succ i =>
        have h' := hrest i e (by simpa using he)
        rw [List.length_append, List.length_singleton] at h'
        rwa [show draft.entries.length + (i + 1) = draft.entries.length + 1 + i by omega]

theorem fromLog_ok {log : AccountLog} {draft : AccountLogDraft} (h : fromLog log = .ok draft) :
    draft = ⟨log.entries⟩ ∧ ∀ i entry, log.entries[i]? = some entry → Sound i entry := by
  obtain ⟨rfl, hsound⟩ := foldlM_push h
  refine ⟨by simp [AccountLogDraft.new], fun i entry he => ?_⟩
  simpa [AccountLogDraft.new] using hsound i entry he

theorem push_key_of_not_live {draft : AccountLogDraft} {key : Bytes32}
    (h : ∀ index context, draft.entries[index]? = some (.add context (.ed25519Key key)) →
      isLive draft.entries index = false) :
    ∃ draft', push draft (.add signerContext (.ed25519Key key)) = .ok draft' := by
  have hfits : fitsFrame signerContext (.ed25519Key key) = true := by
    have hlen := key.length_eq
    have hctx : (textBytes signerContext).length = 11 := by decide
    simp [fitsFrame, addBytes, dataBytes, hctx, hlen]
  have hrepeats : repeatsKey draft.entries (.ed25519Key key) = false := keyLive_eq_false.mpr h
  exact ⟨⟨draft.entries ++ [.add signerContext (.ed25519Key key)]⟩, by simp [push, hfits, hrepeats]⟩

theorem push_text {draft : AccountLogDraft} {name : String} (h : name.utf8ByteSize ≤ 64) :
    ∃ draft', push draft (.add displayNameContext (.text name)) = .ok draft' := by
  have hfits : fitsFrame displayNameContext (.text name) = true := by
    have hctx : (textBytes displayNameContext).length = 19 := by decide
    have hname : (textBytes name).length = name.utf8ByteSize := rfl
    simp only [fitsFrame, addBytes, dataBytes, hctx, List.length_cons, List.length_append, hname,
      Bool.and_true, Bool.and_eq_true, decide_eq_true_eq]
    omega
  exact ⟨⟨draft.entries ++ [.add displayNameContext (.text name)]⟩,
    by simp [push, hfits, repeatsKey]⟩

/-! ### The laws -/

theorem decode_ok {payload : List UInt8} {log : AccountLog} (h : decode payload = .ok log) :
    ∃ bytes fuel, payload = domain ++ bytes ∧ decodeEntries fuel bytes = some log.entries := by
  unfold decode at h
  split at h
  · next hpre =>
    obtain ⟨bytes, rfl⟩ := List.isPrefixOf_iff_prefix.mp hpre
    rw [List.drop_left'] at h
    · split at h
      · next entries hentries => cases h; exact ⟨bytes, _, rfl, hentries⟩
      · cases h
    · rfl
  · cases h

theorem flatMap_entryBytes_length (entries : List AccountEntry) :
    3 * entries.length ≤ (entries.flatMap entryBytes).length := by
  induction entries with
  | nil => simp
  | cons entry entries ih =>
    have := entryBytes_length entry
    rw [List.flatMap_cons, List.length_append, List.length_cons]
    omega

theorem decode_payload {entries : List AccountEntry}
    (hsound : ∀ i entry, entries[i]? = some entry → Sound i entry)
    (hlen : (domain ++ entries.flatMap entryBytes).length ≤ 131072) :
    decode (domain ++ entries.flatMap entryBytes) = .ok ⟨entries⟩ := by
  have hcount := flatMap_entryBytes_length entries
  rw [List.length_append] at hlen
  have hdecode : decodeEntries (domain ++ entries.flatMap entryBytes).length
      (entries.flatMap entryBytes) = some entries := by
    refine @decodeEntries_flatMap 0 _ entries (fun i e he => ?_) (by omega) ?_
    · rw [Nat.zero_add]
      exact hsound i e he
    · rw [List.length_append]
      omega
  unfold decode
  rw [if_pos (List.isPrefixOf_iff_prefix.mpr (List.prefix_append _ _)), List.drop_left' rfl,
    hdecode]

theorem logLaws : Crates.reference.LogLaws where
  fromLog_entries h := by rw [(fromLog_ok h).1]
  fromLog_nil := rfl
  fromLog_of_append {entries more draft} h := by
    have h' : (entries ++ more).foldlM push .new = .ok draft := h
    rw [List.foldlM_append] at h'
    cases hd : entries.foldlM push .new with
    | error e => rw [hd] at h'; cases h'
    | ok d => exact ⟨d, hd⟩
  remove_target {log draft i j} h hentry := (fromLog_ok h).2 i _ hentry
  push_entries h := by rw [(push_ok h).1]
  push_readable {draft entry draft'} hread hpush := by
    have h : fromLog ⟨draft.entries⟩ = .ok ⟨draft.entries⟩ := hread
    obtain ⟨rfl, -⟩ := push_ok hpush
    show (draft.entries ++ [entry]).foldlM push .new = _
    rw [List.foldlM_append, show draft.entries.foldlM push .new = _ from h]
    show (push ⟨draft.entries⟩ entry).bind pure = _
    rw [show push ⟨draft.entries⟩ entry = _ from hpush]
    rfl
  push_remove {draft index} _ := by
    show (∃ draft', push draft (.remove index) = .ok draft') ↔ _
    unfold push
    dsimp only
    split
    · next h => simp [h]
    · next h => simp [h]
  push_key_live {draft context key draft'} _ hpush := by
    have h : push draft (.add context (.ed25519Key key)) = .ok draft' := hpush
    apply keyLive_eq_false.mp
    by_contra hlive
    unfold push at h
    rw [Bool.not_eq_false] at hlive
    have hrepeats : repeatsKey draft.entries (.ed25519Key key) = true := hlive
    simp only [hrepeats, if_true] at h
    split at h <;> cases h
  push_key _ _ h := push_key_of_not_live h
  push_name _ h := push_text h
  add_new {entries context data} hread hmem := by
    obtain ⟨i, hi⟩ := List.mem_iff_getElem?.mp hmem
    have hfits : fitsFrame context data = true :=
      (fromLog_ok (show fromLog ⟨entries⟩ = .ok ⟨entries⟩ from hread)).2 i _ hi
    refine ⟨⟨[.add context data]⟩, ?_⟩
    show push .new (.add context data) = _
    unfold push
    dsimp only
    rw [hfits]
    cases data <;> rfl
  no_unknown {entries opcode body} hread hmem := by
    obtain ⟨i, hi⟩ := List.mem_iff_getElem?.mp hmem
    exact (fromLog_ok (show fromLog ⟨entries⟩ = .ok ⟨entries⟩ from hread)).2 i _ hi
  liveEntries_eq _ := rfl
  entriesFor_eq _ _ := rfl
  encode_eq _ := rfl
  decode_encode {entries payload} hread hencode := by
    have hsound := (fromLog_ok (show fromLog ⟨entries⟩ = .ok ⟨entries⟩ from hread)).2
    have h : encode ⟨entries⟩ = .ok payload := hencode
    unfold encode at h
    dsimp only at h
    split at h
    · next hlen =>
      cases h
      exact decode_payload hsound hlen
    · cases h
  decode_payload h := by
    obtain ⟨bytes, fuel, rfl, hentries⟩ := decode_ok h
    rw [decodeEntries_bytes hentries]
    rfl
  decode_prefix {payload payload' log log'} h h' hp := by
    obtain ⟨bytes, fuel, rfl, hentries⟩ := decode_ok h
    obtain ⟨bytes', fuel', rfl, hentries'⟩ := decode_ok h'
    exact decodeEntries_prefix hentries hentries' ((List.prefix_append_right_inj _).mp hp)
  remove_bytes _ _ := rfl
  key_bytes context key key' := by
    have hkey := key.length_eq
    have hkey' := key'.length_eq
    show (frame 1 (addBytes context (.ed25519Key key))).length =
      (frame 1 (addBytes context (.ed25519Key key'))).length
    simp [frame, addBytes, dataBytes, hkey, hkey']
  text_bytes context text := by
    have htext : (textBytes text).length = text.utf8ByteSize := rfl
    have hempty : (textBytes "").length = 0 := rfl
    show (frame 1 (addBytes context (.text text))).length =
      (frame 1 (addBytes context (.text ""))).length + text.utf8ByteSize
    simp only [frame, addBytes, dataBytes, List.length_cons, List.length_append, htext, hempty]
    omega
  probe_canonical := rfl
  room := by decide

theorem accountLaws : Crates.reference.AccountLaws where
  fromCanonicalBytes_bytes h := by rw [← Option.some.inj h]
  verify_decode {addr signed log} h := by
    have h' : verify addr signed = .ok log := h
    unfold verify at h'
    split at h'
    · exact h'
    · cases h'
  verify_sign {key payload log} h := by
    show verify ⟨key.bytes⟩ ⟨payload, key.bytes.toList⟩ = _
    unfold verify
    rw [if_pos rfl]
    exact h
  resolve_adopts {addr held fetched held'} h := by
    have h' : resolve addr held fetched = .ok held' := h
    cases fetched with
    | none => cases h'; exact .inl rfl
    | some signed =>
      cases hv : verify addr signed with
      | error e => simp [resolve, hv, Except.mapError, bind, Except.bind] at h'
      | ok log =>
        simp only [resolve, hv, Except.mapError, bind, Except.bind] at h'
        split at h'
        · next hall =>
          cases h'
          refine .inr ⟨signed, log, rfl, hv, rfl, ?_⟩
          rintro record rfl
          exact List.isPrefixOf_iff_prefix.mp (by simpa using hall)
        · cases h'
  resolve_extends {addr held signed log} hv hext := by
    show resolve addr held (some signed) = _
    have hall : held.all (·.log.entries.isPrefixOf log.entries) = true := by
      cases held with
      | none => rfl
      | some record => exact List.isPrefixOf_iff_prefix.mpr (hext record rfl)
    simp only [resolve, show verify addr signed = .ok log from hv, Except.mapError, bind,
      Except.bind, hall, if_true]
    rfl
  resolve_none := rfl
  update_ok {key base entries signed} h := by
    have h' : update key base entries = .ok signed := h
    unfold update at h'
    cases hbase : base.elim (.ok ⟨[]⟩) (verify ⟨key.bytes⟩) with
    | error e => simp [hbase, Except.mapError, bind, Except.bind] at h'
    | ok log =>
    cases hfrom : fromLog log with
    | error e => simp [hbase, hfrom, Except.mapError, bind, Except.bind] at h'
    | ok held =>
    cases hpush : entries.foldlM push held with
    | error e => simp [hbase, hfrom, hpush, Except.mapError, bind, Except.bind] at h'
    | ok draft =>
    cases hencode : encode draft.log with
    | error e => simp [hbase, hfrom, hpush, hencode, Except.mapError, bind, Except.bind] at h'
    | ok payload =>
    simp only [hbase, hfrom, hpush, hencode, Except.mapError, bind, Except.bind, pure, Except.pure,
      Except.ok.injEq] at h'
    subst h'
    obtain rfl := (fromLog_ok hfrom).1
    refine ⟨log.entries, draft, ?_, hfrom, hpush, hencode, rfl⟩
    cases base with
    | none => cases hbase; exact .inl ⟨rfl, rfl⟩
    | some b => exact .inr ⟨b, rfl, hbase⟩
  update_of_pushAll {key base held entries draft payload} hbase hread hpush hencode := by
    have hbase' : base.elim (.ok ⟨[]⟩) (verify ⟨key.bytes⟩) = .ok ⟨held⟩ := by
      rcases hbase with ⟨rfl, rfl⟩ | ⟨b, rfl, hb⟩
      · rfl
      · exact hb
    refine ⟨⟨payload, key.bytes.toList⟩, ?_⟩
    show update key base entries = _
    simp only [update, hbase', show fromLog ⟨held⟩ = _ from hread,
      show entries.foldlM push ⟨held⟩ = _ from hpush, show encode draft.log = _ from hencode,
      Except.mapError, bind, Except.bind, pure, Except.pure]

theorem checksFirst : Crates.reference.ChecksFirst := by
  intro addr held signed e h
  have hv : verify addr signed = .error e := h
  show resolve addr held (some signed) = _
  simp only [resolve, hv, Except.mapError, bind, Except.bind]

theorem vaultLaws : Crates.reference.VaultLaws where
  parseAddr_eq {text addr} := by
    show parseAddr text = some addr ↔ text = Hex.encode addr.bytes.toList
    unfold parseAddr
    constructor
    · intro h
      split at h
      · next bytes hbytes =>
        split_ifs at h with hlen htext
        obtain rfl := Option.some.inj h
        exact htext.symm
      · cases h
    · rintro rfl
      rw [Hex.decode_encode]
      simp [addr.bytes.length_eq]
  addrText_length addr := by
    show (Hex.encode addr.bytes.toList).length = 64
    rw [Hex.length_encode, addr.bytes.length_eq]
  addrText_hex addr c hc := Hex.mem_encode hc
  decrypt_encrypt seed secret password := by
    show (if password = password then
        (Hex.decode (String.ofList (Hex.encode secret)).toList).mapError
      fun _ => KeystoreError.other "the ciphertext is not hex" else .error .macMismatch) = _
    rw [if_pos rfl, String.toList_ofList, Hex.decode_encode]
    rfl
  decrypt_wrong seed secret password password' hne := by
    show (if password' = password then _ else Except.error KeystoreError.macMismatch) = _
    rw [if_neg hne]
  encrypt_params seed secret password :=
    ⟨toString seed, "00000000000000000000000000000000", rfl, rfl, rfl, rfl⟩

end AccountLogUi.Reference
