import Vuknob.Remote.Framing

/-!
# Message round trip

What `get_value` returns on the other side of a connection. A message whose bytes pass
`2 ^ 32` announces too few of them, so that `decode_body` sees its text cut short; the
first section says what it makes of such a text.
-/

namespace Vuknob

open Message

/-! ## Bodies cut short -/


/-- Of an entry that is cut short, at most the key and a part of the value are read. -/
private theorem decodeEntries_cut {e : StdString × StdString} (he : Readable e) {n : Nat}
    (hn : n < e.1.length + e.2.length + 2) (rest : StdString) (key2val : StringMap) :
    decodeEntries (getline 61 ((e.1 ++ 61 :: (e.2 ++ 59 :: rest)).take n)) key2val =
      if n ≤ e.1.length then some (key2val, [])
      else (Serialize.decodeString (e.2.take (n - e.1.length - 1))).map fun v ↦
        (key2val.insert (Serialize.decoded e.1) v, []) := by
  split
  · next hle =>
    have htake : (e.1 ++ 61 :: (e.2 ++ 59 :: rest)).take n = e.1.take n :=
      List.take_append_of_le_length hle
    rw [htake, getline_of_notMem (fun h ↦ he.key_sep (List.mem_of_mem_take h)), decodeEntries]
    simp
  · next hlt =>
    obtain ⟨j, rfl⟩ : ∃ j, n = e.1.length + (j + 1) := ⟨n - e.1.length - 1, by omega⟩
    have htake : (e.1 ++ 61 :: (e.2 ++ 59 :: rest)).take (e.1.length + (j + 1)) =
        e.1 ++ 61 :: e.2.take j := by
      rw [List.take_length_add_append, List.take_succ_cons,
        List.take_append_of_le_length (by omega)]
    have hj : e.1.length + (j + 1) - e.1.length - 1 = j := by omega
    rw [htake, hj, getline_append he.key_sep, decodeEntries]
    simp only [he.key_ne, getline_of_notMem (fun h ↦ he.val_sep (List.mem_of_mem_take h)),
      he.key_decode]
    cases Serialize.decodeString (e.2.take j) <;> simp

private theorem take_bodyText_cons (e : StdString × StdString)
    (es : List (StdString × StdString)) (n : Nat) :
    (bodyText (e :: es)).take (e.1.length + e.2.length + 2 + n) =
      e.1 ++ 61 :: (e.2 ++ 59 :: (bodyText es).take n) := by
  have hsplit : bodyText (e :: es) = (e.1 ++ 61 :: (e.2 ++ [59])) ++ bodyText es := by
    rw [bodyText_cons]
    simp
  have hlen : (e.1 ++ 61 :: (e.2 ++ [59])).length = e.1.length + e.2.length + 2 := by
    simp only [List.length_append, List.length_cons, List.length_nil]
    omega
  rw [hsplit, ← hlen, List.take_length_add_append]
  simp

/-- A body that is cut before its last entries reads as one without them. -/
theorem take_bodyText_append {es : List (StdString × StdString)} {n : Nat}
    (hn : n ≤ (bodyText es).length) (rest : List (StdString × StdString)) :
    (bodyText (es ++ rest)).take n = (bodyText es).take n := by
  rw [bodyText, List.flatMap_append]
  exact List.take_append_of_le_length hn

/-- An entry that arrives whole is taken in, whatever becomes of those behind it. -/
theorem decodeEntries_take_cons {e : StdString × StdString} (he : Readable e)
    {es : List (StdString × StdString)} {n : Nat} (hn : (bodyText [e]).length ≤ n)
    (key2val : StringMap) :
    decodeEntries (getline 61 ((bodyText (e :: es)).take n)) key2val =
      decodeEntries (getline 61 ((bodyText es).take (n - (bodyText [e]).length)))
        (key2val.insert (Serialize.decoded e.1) (Serialize.decoded e.2)) := by
  obtain ⟨m, rfl⟩ := Nat.exists_eq_add_of_le hn
  have hlen : (bodyText [e]).length = e.1.length + e.2.length + 2 := by
    rw [length_bodyText_cons]
    rfl
  rw [Nat.add_sub_cancel_left, hlen, take_bodyText_cons, decodeEntries_cons he]

/-- However much of a body arrives, no key is touched that is not in it. -/
theorem getElem?_decodeEntries_take {es : List (StdString × StdString)}
    (hes : ∀ e ∈ es, Readable e) {k : StdString} (hk : ∀ e ∈ es, Serialize.decoded e.1 ≠ k)
    (n : Nat) (key2val : StringMap) {result : StringMap × StdString}
    (h : decodeEntries (getline 61 ((bodyText es).take n)) key2val = some result) :
    result.1[k]? = key2val[k]? := by
  induction es generalizing n key2val with
  | nil =>
    rw [decodeEntries] at h
    simp only [bodyText, List.flatMap_nil, List.take_nil, getline, true_or, if_true,
      Option.some.injEq] at h
    rw [← h]
  | cons e es ih =>
    rw [List.forall_mem_cons] at hes hk
    have hcmp : compare (Serialize.decoded e.1) k ≠ .eq :=
      fun heq ↦ hk.1 (Std.LawfulEqCmp.eq_of_compare heq)
    by_cases hn : n < (bodyText [e]).length
    · rw [length_bodyText_cons] at hn
      rw [bodyText_cons, decodeEntries_cut hes.1 hn] at h
      split at h
      · rw [← Option.some.inj h]
      · obtain ⟨v, -, rfl⟩ := Option.map_eq_some_iff.mp h
        rw [Std.ExtTreeMap.getElem?_insert, if_neg hcmp]
    · rw [decodeEntries_take_cons hes.1 (not_lt.mp hn)] at h
      rw [ih hes.2 hk.2 _ _ h, Std.ExtTreeMap.getElem?_insert, if_neg hcmp]

/-- A body that ends more than eight bytes early loses the value of its last key. -/
theorem getElem?_decodeEntries_cut {es : List (StdString × StdString)}
    {last : StdString × StdString} (hes : ∀ e ∈ es, Readable e) (hlast : Readable last)
    (hk : ∀ e ∈ es, Serialize.decoded e.1 ≠ Serialize.decoded last.1) {v : StdString}
    (hv : ∀ j, j + 8 ≤ last.2.length → Serialize.decodeString (last.2.take j) ≠ some v)
    {n : Nat} (hn : n + 9 ≤ (bodyText (es ++ [last])).length) {key2val : StringMap}
    (habsent : key2val[Serialize.decoded last.1]? = none) {result : StringMap × StdString}
    (h : decodeEntries (getline 61 ((bodyText (es ++ [last])).take n)) key2val = some result) :
    result.1[Serialize.decoded last.1]? ≠ some v := by
  induction es generalizing n key2val with
  | nil =>
    have hlen : (bodyText ([] ++ [last])).length = last.1.length + last.2.length + 2 := by
      rw [List.nil_append, length_bodyText_cons]
      rfl
    rw [hlen] at hn
    rw [List.nil_append, bodyText_cons, decodeEntries_cut hlast (by omega)] at h
    split at h
    · rw [← Option.some.inj h, habsent]
      simp
    · obtain ⟨v', hv', rfl⟩ := Option.map_eq_some_iff.mp h
      rw [Std.ExtTreeMap.getElem?_insert_self]
      intro heq
      rw [Option.some.inj heq] at hv'
      exact hv _ (by omega) hv'
  | cons e es ih =>
    rw [List.forall_mem_cons] at hes hk
    have hcmp : compare (Serialize.decoded e.1) (Serialize.decoded last.1) ≠ .eq :=
      fun heq ↦ hk.1 (Std.LawfulEqCmp.eq_of_compare heq)
    rw [List.cons_append] at hn h
    by_cases hcut : n ≤ (bodyText [e]).length
    · rw [← List.singleton_append, take_bodyText_append hcut] at h
      rw [getElem?_decodeEntries_take (by simpa using hes.1) (by simpa using hk.1) n key2val h,
        habsent]
      simp
    · rw [decodeEntries_take_cons hes.1 (by omega)] at h
      refine ih hes.2 hk.2 ?_ ?_ h
      · have hone : (bodyText [e]).length = e.1.length + e.2.length + 2 := by
          rw [length_bodyText_cons]
          rfl
        rw [length_bodyText_cons] at hn
        omega
      · rw [Std.ExtTreeMap.getElem?_insert, if_neg hcmp, habsent]

/-! ## The round trip -/

/-- The message arrives, `get_value` returns what was set for every key and throws
`NoSuchKey` for every other one. -/
def RoundTrips (readMsg : Message) (c : Composed) : Prop :=
  ∃ r msg rest, readMessage readMsg c.bytes = .ok (r, msg, rest) ∧
    (∀ call ∈ c.calls, msg.getValue call.1 = .ok call.2) ∧
    ∀ key ∉ c.calls.map Prod.fst, msg.getValue key = .error (.noSuchKey (cString key))

theorem getValue_eq_ok_iff {msg : Message} {key value : StdString} :
    msg.getValue key = .ok value ↔ msg.key2val[key]? = some value := by
  rw [getValue]
  cases msg.key2val[key]? <;> simp

theorem getValue_eq_error_iff {msg : Message} {key : StdString} :
    msg.getValue key = .error (.noSuchKey (cString key)) ↔ msg.key2val[key]? = none := by
  rw [getValue]
  cases msg.key2val[key]? <;> simp

namespace Composed

variable {c : Composed}

/-- No key or value holds a NUL byte. -/
def NulFree (c : Composed) : Prop := ∀ call ∈ c.calls, 0 ∉ call.1 ∧ 0 ∉ call.2

private theorem head?_ne_of_nulFree (hnul : c.NulFree) :
    ∀ call ∈ c.calls, call.1.head? ≠ some 0 :=
  fun call hcall hhead ↦ (hnul call hcall).1 (List.mem_of_mem_head? hhead)

private theorem readable_toList (hnul : c.NulFree) : ∀ e ∈ c.message.key2val.toList, Readable e := by
  intro e he
  obtain ⟨call, hcall, rfl⟩ := exists_call_of_mem_toList he
  exact readable_encodeEntry (head?_ne_of_nulFree hnul call hcall)

/-- No string arrives as the empty key, however much of the body is read. -/
private theorem getElem?_nil_of_decodeEntries (hnul : c.NulFree) {n : Nat}
    {result : StringMap × StdString}
    (h : decodeEntries (getline 61 (c.body.take n)) ∅ = some result) :
    result.1[([] : StdString)]? = none := by
  have hk : ∀ e ∈ c.message.key2val.toList, Serialize.decoded e.1 ≠ [] := by
    intro e he
    obtain ⟨call, hcall, rfl⟩ := exists_call_of_mem_toList he
    rw [encodeEntry, Prod.map_fst, Serialize.decoded_encodeString, Serialize.transmitted]
    split
    · decide
    · next hne => rwa [cString_of_notMem (hnul call hcall).1]
  rw [getElem?_decodeEntries_take (readable_toList hnul) hk n ∅ h]
  rfl

/-- Of a body that is cut by `2 ^ 32` bytes or more, one value at least is lost. -/
private theorem exists_lost (hnul : c.NulFree) {n : Nat} (hn : n + 9 ≤ c.body.length)
    {result : StringMap × StdString}
    (h : decodeEntries (getline 61 (c.body.take n)) ∅ = some result) :
    ∃ call ∈ c.calls, result.1[Serialize.transmitted call.1]? ≠ some call.2 := by
  have hne : c.message.key2val.toList ≠ [] := by
    intro hnil
    rw [body, hnil] at hn
    simp [bodyText] at hn
  obtain ⟨es, last, hsplit⟩ : ∃ es last, c.message.key2val.toList = es ++ [last] :=
    ⟨_, _, (List.dropLast_append_getLast hne).symm⟩
  have hreadable := readable_toList hnul
  have hmem := fun e he ↦ exists_call_of_mem_toList (c := c) (e := e) he
  rw [hsplit] at hreadable hmem
  obtain ⟨call, hcall, hlast⟩ := hmem last (by simp)
  have hord := c.message.key2val.distinct_keys_toList
  rw [hsplit, List.pairwise_append] at hord
  refine ⟨call, hcall, ?_⟩
  rw [← Serialize.decoded_encodeString, show Serialize.encodeString call.1 = last.1 by
    rw [← hlast]; rfl]
  rw [body, hsplit] at hn h
  refine getElem?_decodeEntries_cut (fun e he ↦ hreadable e (by simp [he]))
    (hreadable last (by simp)) ?_ ?_ hn rfl h
  · intro e he heq
    obtain ⟨call', -, he'⟩ := hmem e (by simp [he])
    have hkey : e.1 = last.1 := by
      rw [← he', ← hlast] at heq ⊢
      simp only [encodeEntry, Prod.map_fst, Serialize.decoded_encodeString] at heq ⊢
      exact Serialize.encodeString_inj.mpr heq
    refine hord.2.2 e he last (by simp) ?_
    rw [hkey]
    exact Std.ReflCmp.compare_self
  · intro j hj
    rw [← hlast] at hj ⊢
    simp only [encodeEntry, Prod.map_snd] at hj ⊢
    by_cases hvalue : call.2 = []
    · rw [hvalue] at hj
      have : (Serialize.encodeString []).length = 7 := by decide
      omega
    · exact Serialize.decodeString_take_ne hvalue (hnul call hcall).2 (by omega)

end Composed

/-- A map of strings without NUL bytes survives the round trip exactly when something is
written, no key and no value is empty, and the count of its bytes fits 32 bits. -/
theorem roundTrips_iff {readMsg : Message} (hsbuf : readMsg.sbuf = []) (c : Composed)
    (hkeys : (c.calls.map Prod.fst).Nodup) (hnul : c.NulFree) :
    RoundTrips readMsg c ↔
      ¬ c.Stale ∧ (∀ call ∈ c.calls, call.1 ≠ [] ∧ call.2 ≠ []) ∧
        (bodyText c.entries).length < 2 ^ 32 := by
  constructor
  · rintro ⟨r, msg, rest, hread, hset, -⟩
    have hs : ¬ c.Stale := by
      intro hs
      rw [c.bytes_of_stale hs] at hread
      cases hread
    have hbytes := hread
    rw [c.bytes_of_not_stale hs] at hbytes
    obtain ⟨hn, hdecode⟩ := of_readMessage_snprintf08x hsbuf hbytes
    have hne : ∀ call ∈ c.calls, call.1 ≠ [] := by
      intro call hcall hnil
      have hget := getValue_eq_ok_iff.mp (hset call hcall)
      rw [hnil, Composed.getElem?_nil_of_decodeEntries hnul hdecode] at hget
      cases hget
    have hplain : c.PlainKeys := ⟨hkeys, hne, fun call hcall ↦ (hnul call hcall).1⟩
    have hsize : (bodyText c.entries).length < 2 ^ 32 := by
      by_contra hlarge
      have hcut : (UInt32.ofNat (bodyText c.entries).length).toNat + 9 ≤ c.body.length := by
        rw [UInt32.toNat_ofNat', ← Composed.length_entries_eq hplain.nodup_entries]
        omega
      obtain ⟨call, hcall, hlost⟩ := Composed.exists_lost hnul hcut hdecode
      rw [hplain.transmitted_eq hcall] at hlost
      exact hlost (getValue_eq_ok_iff.mp (hset call hcall))
    refine ⟨hs, fun call hcall ↦ ⟨hne call hcall, fun hnil ↦ ?_⟩, hsize⟩
    obtain ⟨r', msg', rest', hread', hmap, -⟩ := hplain.exists_readMessage hsbuf hs hsize
    rw [hread] at hread'
    cases hread'
    have hget := getValue_eq_ok_iff.mp (hset call hcall)
    rw [hmap, hnil, hplain.getElem?_sent] at hget
    obtain ⟨call', hcall', -, hvalue⟩ := hget
    rw [Serialize.transmitted] at hvalue
    split at hvalue
    · revert hvalue
      decide
    · next hvalue' => exact hvalue' (by rwa [cString_of_notMem (hnul call' hcall').2] at hvalue)
  · rintro ⟨hs, hne, hsize⟩
    have hplain : c.PlainKeys :=
      ⟨hkeys, fun call hcall ↦ (hne call hcall).1, fun call hcall ↦ (hnul call hcall).1⟩
    obtain ⟨r, msg, rest, hread, hmap, -⟩ := hplain.exists_readMessage hsbuf hs hsize
    refine ⟨r, msg, rest, hread, fun call hcall ↦ ?_, fun key hkey ↦ ?_⟩
    · rw [getValue_eq_ok_iff, hmap, hplain.getElem?_sent]
      exact ⟨call, hcall, rfl,
        Serialize.transmitted_eq_self (hne call hcall).2 (hnul call hcall).2⟩
    · rw [getValue_eq_error_iff, Option.eq_none_iff_forall_ne_some, hmap]
      intro value hvalue
      obtain ⟨call, hcall, rfl, -⟩ := (hplain.getElem?_sent _ _).mp hvalue
      exact hkey (List.mem_map_of_mem hcall)

theorem roundTrips_iff_addPatternRequest :
    ((addPatternRequest.calls.map Prod.fst).Nodup ∧ addPatternRequest.NulFree) ∧
      RoundTrips (newMessage true 5) addPatternRequest := by
  have hkeys : (addPatternRequest.calls.map Prod.fst).Nodup := by decide
  have hnul : addPatternRequest.NulFree := by
    unfold Composed.NulFree
    decide
  refine ⟨⟨hkeys, hnul⟩, (roundTrips_iff rfl addPatternRequest hkeys hnul).mpr ?_⟩
  exact ⟨by decide, by decide, by decide +kernel⟩

/-- The request of `Sequence::add_pattern` for a pattern without a name. -/
def addUnnamedRequest : Composed :=
  .ofCalls false [(str "id", str "3"), (str "commandid", str "req_add_ptrn"), (str "name", [])]
    (by decide)

/-- The empty name arrives as the word that stands for it. -/
theorem addUnnamedRequest_not_roundTrips :
    ((addUnnamedRequest.calls.map Prod.fst).Nodup ∧ addUnnamedRequest.NulFree) ∧
      addUnnamedRequest.bytes = str "00000029commandid=req_add_ptrn;id=3;name=<empty>;" ∧
      ¬ RoundTrips (newMessage false 0) addUnnamedRequest := by
  refine ⟨⟨by decide, by unfold Composed.NulFree; decide⟩, by decide +kernel, ?_⟩
  rintro ⟨r, msg, rest, hread, hset, -⟩
  have hname := getValue_eq_ok_iff.mp (hset (str "name", []) (by decide))
  have hfound : (readMessage (newMessage false 0) addUnnamedRequest.bytes).map
      (fun read ↦ read.2.1.key2val[str "name"]?) = .ok (some (str "<empty>")) := by
    decide +kernel
  rw [hread] at hfound
  have hempty : msg.key2val[str "name"]? = some (str "<empty>") := Except.ok.inj hfound
  rw [hempty] at hname
  revert hname
  decide

end Vuknob
