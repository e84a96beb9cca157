import Dtn2.Discovery.BeaconGrammar

/-!
# The beacon parser on any datagram

Each part of the parser follows its course, and a course that is clean goes through a well-formed part.
From this, the parser is safe and rejects a malformed datagram exactly if the datagram is handled.
-/

namespace Dtn2

namespace IPND

open Framework InputStream

/-! ## Numbers -/

theorem read_one (xs d : Bytes) (b : UInt8) :
    (between xs (b :: d)).read 1 = ([b], between (xs ++ [b]) d) :=
  read_between_append xs [b] d

theorem readSDNVLoop_some {room : Nat} {d num rest : Bytes} (h : splitNumber room d = some (num, rest))
    (xs sdnv : Bytes) :
    readSDNVLoop room (between xs d) sdnv = .ok (sdnv ++ num, between (xs ++ num) rest) := by
  induction room generalizing d num xs sdnv with
  | zero =>
      rw [splitNumber] at h
      cases h
  | succ room ih =>
      cases d with
      | nil =>
          rw [splitNumber] at h
          cases h
      | cons b d =>
          rw [splitNumber] at h
          rw [readSDNVLoop, read_one]
          by_cases hb : b &&& 0x80 = 0
          · rw [if_pos hb] at h
            cases h
            simp only [if_pos hb]
          · rw [if_neg hb] at h
            obtain ⟨s, hs, heq⟩ := Option.map_eq_some_iff.mp h
            cases heq
            simp only [if_neg hb, ih hs, List.append_assoc, List.singleton_append]

theorem readSDNVLoop_none {room : Nat} {d : Bytes} (h : splitNumber room d = none) (xs sdnv : Bytes) :
    ∃ t, readSDNVLoop room (between xs d) sdnv = .error t := by
  induction room generalizing d xs sdnv with
  | zero => exact ⟨.overrun, rfl⟩
  | succ room ih =>
      cases d with
      | nil => exact ⟨.unset, rfl⟩
      | cons b d =>
          rw [splitNumber] at h
          rw [readSDNVLoop, read_one]
          by_cases hb : b &&& 0x80 = 0
          · rw [if_pos hb] at h
            cases h
          · rw [if_neg hb, Option.map_eq_none_iff] at h
            simp only [if_neg hb]
            exact ih h _ _

/-- The result of `readSDNV` for a number. -/
def numberResult (num : Bytes) : Nat := if Refused num then 2 ^ 64 - 1 else num.length

theorem readSDNV_some {d num rest : Bytes} (h : splitNumber SDNV.maxLength d = some (num, rest))
    (xs : Bytes) :
    readSDNV (between xs d) =
      .ok (numberResult num, UInt64.ofNat (value num), between (xs ++ num) rest) := by
  rw [readSDNV, readSDNVLoop_some h]
  change Except.ok (if (SDNV.decode num).1 = some num.length then num.length else 2 ^ 64 - 1,
    (SDNV.decode num).2, between (xs ++ num) rest) = _
  rw [decode_split h, numberResult]
  by_cases hr : Refused num
  · simp [hr]
  · simp [hr]

theorem readSDNV_none {d : Bytes} (h : splitNumber SDNV.maxLength d = none) (xs : Bytes) :
    ∃ t, readSDNV (between xs d) = .error t := by
  obtain ⟨t, ht⟩ := readSDNVLoop_none h xs []
  refine ⟨t, ?_⟩
  rw [readSDNV, ht]
  rfl

theorem readSDNV_failed {s : InputStream UInt8} (h : s.failed = true) :
    readSDNV s = .error .unset := by
  have hread : s.read 1 = ([], s) := by rw [InputStream.read, if_pos h]
  rw [readSDNV, SDNV.maxLength, readSDNVLoop, hread]
  rfl

theorem numberResult_pos {room : Nat} {d num rest : Bytes}
    (h : splitNumber room d = some (num, rest)) : 0 < numberResult num := by
  have hpos := (splitNumber_some h).2.1
  rw [numberResult]
  split
  · decide
  · exact hpos

/-! ## Reading a service stays in its buffer -/

theorem ok_bind {α β : Type} (a : α) (f : α → Except Trap β) :
    ((.ok a : Except Trap α) >>= f) = f a := rfl

theorem bind_ok {α β : Type} {x : Except Trap α} {f : α → Except Trap β} (hx : ∃ a, x = .ok a)
    (hf : ∀ a, x = .ok a → ∃ b, f a = .ok b) : ∃ b, (x >>= f) = .ok b := by
  obtain ⟨a, ha⟩ := hx
  obtain ⟨b, hb⟩ := hf a ha
  exact ⟨b, by rw [ha]; exact hb⟩

theorem copySdnv_ok {room : Nat} {buf : Bytes} (h : room < buf.length) (sdnv : Bytes) :
    ∃ r, copySdnv room buf sdnv = .ok r := by
  induction room generalizing buf sdnv with
  | zero =>
      cases buf with
      | nil => simp at h
      | cons b buf => exact ⟨_, rfl⟩
  | succ room ih =>
      cases buf with
      | nil => simp at h
      | cons b buf =>
          rw [copySdnv]
          by_cases hb : b &&& 0x80 = 0
          · rw [if_pos hb]
            exact ⟨_, rfl⟩
          · rw [if_neg hb]
            exact ih (by simpa using h) _

theorem readSdnv_ok {buf : Bytes} {lenRemain : Nat} (h : lenRemain ≤ buf.length) :
    ∃ r, readSdnv buf lenRemain = .ok r := by
  rw [readSdnv]
  by_cases hlen : lenRemain < 1
  · rw [if_pos hlen]
    exact ⟨_, rfl⟩
  · have hroom : min lenRemain SDNV.maxLength - 1 < buf.length := by omega
    rw [if_neg hlen]
    apply bind_ok (copySdnv_ok hroom [])
    intro r hr
    cases r with
    | none => exact ⟨_, rfl⟩
    | some sdnv =>
        dsimp only
        split
        · exact ⟨_, rfl⟩
        · exact ⟨_, rfl⟩

theorem Primitive.read_ok (p : Primitive) {buf : Bytes} {lenRemain : Nat} (h : lenRemain ≤ buf.length) :
    ∃ r, p.read buf lenRemain = .ok r := by
  unfold Primitive.read
  by_cases hlen : lenRemain < p.getLength
  · rw [if_pos hlen]
    exact ⟨_, rfl⟩
  · rw [if_neg hlen]
    rw [Primitive.getLength] at hlen
    cases buf with
    | nil =>
        rw [List.length_nil] at h
        omega
    | cons tag rest =>
        have hrest : ¬rest.length < p.content.length := by
          rw [List.length_cons] at h
          omega
        by_cases htag : tag = p.tag
        · simp [htag, hrest]
        · simp [htag]

theorem readChildren_ok {left : Nat} {components : List Primitive} {ptr : Bytes} {remaining : Int}
    (h : remaining.toNat ≤ ptr.length) (structBytes expected : Nat) :
    ∃ r, readChildren left components ptr remaining structBytes expected = .ok r := by
  induction left generalizing components ptr remaining structBytes with
  | zero => exact ⟨_, rfl⟩
  | succ left ih =>
      unfold readChildren
      by_cases hdone : expected ≤ structBytes
      · rw [if_pos hdone]
        exact ⟨_, rfl⟩
      rw [if_neg hdone]
      by_cases hshort : remaining ≤ 0 ∨ remaining.toNat < 2
      · rw [if_pos hshort]
        exact ⟨_, rfl⟩
      rw [if_neg hshort]
      cases ptr with
      | nil =>
          rw [List.length_nil] at h
          omega
      | cons tag rest =>
          cases hfind : components.find? fun child => decide (child.tag = tag) with
          | none => simp [hfind]
          | some child =>
              by_cases hfilled : child.filled = true
              · simp [hfind, hfilled]
              · simp only [hfind, if_neg hfilled]
                apply bind_ok (child.read_ok h)
                intro r hr
                by_cases hneg : r.1 < 0
                · rw [if_pos hneg]
                  exact ⟨_, rfl⟩
                rw [if_neg hneg]
                by_cases hlt : r.1 < 2
                · rw [if_pos hlt]
                  exact ⟨_, rfl⟩
                rw [if_neg hlt]
                apply ih
                rw [List.length_drop]
                omega

theorem ClaService.read_ok (svc : ClaService) {buf : Bytes} (hsize : buf.length < 2 ^ 31) :
    ∃ r, svc.read buf buf.length = .ok r := by
  unfold ClaService.read
  by_cases hmin : buf.length < ClaService.getMinLength
  · rw [if_pos hmin]
    exact ⟨_, rfl⟩
  rw [if_neg hmin]
  cases buf with
  | nil => exact absurd (by decide) hmin
  | cons tag ptr =>
      have hremaining : toInt (tag :: ptr).length - 1 = ptr.length := by
        rw [toInt_of_lt hsize, List.length_cons]
        omega
      simp only [hremaining]
      by_cases htag : tag ≠ svc.tag
      · rw [if_pos htag]
        exact ⟨_, rfl⟩
      rw [if_neg htag]
      by_cases hshort : (ptr.length : Int) ≤ 0 ∨ (ptr.length : Int).toNat < 3
      · rw [if_pos hshort]
        exact ⟨_, rfl⟩
      rw [if_neg hshort]
      apply bind_ok (readSdnv_ok (by omega))
      intro r hr
      cases r with
      | error code => exact ⟨_, rfl⟩
      | ok r =>
          dsimp only
          split
          · exact ⟨_, rfl⟩
          · apply bind_ok
            · apply readChildren_ok
              rw [List.length_drop]
              omega
            · intro e he
              split
              · exact ⟨_, rfl⟩
              split
              · exact ⟨_, rfl⟩
              split
              · exact ⟨_, rfl⟩
              · exact ⟨_, rfl⟩

theorem readService_ok (tag : UInt8) {buf : Bytes} (hsize : buf.length < 2 ^ 31) :
    ∃ r, readService tag buf buf.length = .ok r := by
  rw [readService]
  by_cases hknown : tag = ClaService.tcpV4 ∨ tag = ClaService.udpV4
  · rw [if_pos hknown]
    exact bind_ok (ClaService.read_ok _ hsize) fun r hr => ⟨_, rfl⟩
  · rw [if_neg hknown]
    exact ⟨_, rfl⟩

/-! ## The services -/

/-- What the loop over the services does on a course through `data`. `bytes` is the number of bytes used
and left. -/
def LoopFollows (data : Bytes) (bytes : Nat) : Course → Except Trap ServiceLoop → Prop
  | .stuck, x => ∀ e, x = .ok e → e.left ≠ 0 ∧ e.numRead = none
  | .rejected, x => ∃ e code, x = .ok e ∧ e.left ≠ 0 ∧ e.numRead = some code ∧ code < 0
  | .reached rest _, x => ∃ e xs, x = .ok e ∧ e.left = 0 ∧ e.input = between xs rest ∧
      e.totalRead + rest.length = bytes ∧ xs ++ rest = data

theorem loopFollows_mark (data : Bytes) (bytes : Nat) (b : Bool) (c : Course) (x : Except Trap ServiceLoop) :
    LoopFollows data bytes (c.mark b) x ↔ LoopFollows data bytes c x := by
  cases c <;> rfl

theorem toInt_refused : toInt (2 ^ 64 - 1) = -1 := by decide

theorem bmod_position {n : Nat} (h : n < 2 ^ 31) : Int.bmod (n : Int) (2 ^ 32) = n :=
  toInt_of_lt h

theorem readServicesLoop_follows (n : Nat) (xs d : Bytes) (totalRead : Nat) (services : List ClaService)
    (hsize : (xs ++ d).length < 2 ^ 31) :
    LoopFollows (xs ++ d) (totalRead + d.length) (servicesCourse n d)
      (readServicesLoop n (between xs d) d.length totalRead services) := by
  induction n generalizing xs d totalRead services with
  | zero => exact ⟨_, xs, rfl, rfl, rfl, rfl, rfl⟩
  | succ n ih =>
      cases d with
      | nil =>
          intro e he
          cases he
          exact ⟨Nat.succ_ne_zero n, rfl⟩
      | cons tag d =>
          unfold servicesCourse readServicesLoop
          by_cases hshort : d.length < 3
          · have hlen : (tag :: d).length < 4 := Nat.succ_lt_succ hshort
            rw [if_pos hshort, if_pos hlen]
            intro e he
            cases he
            exact ⟨Nat.succ_ne_zero n, rfl⟩
          have hlen : ¬(tag :: d).length < 4 := fun h => hshort (Nat.lt_of_succ_lt_succ h)
          rw [if_neg hshort, if_neg hlen, read_one]
          dsimp only
          cases hsplit : splitNumber SDNV.maxLength d with
          | none =>
              obtain ⟨t, ht⟩ := readSDNV_none hsplit (xs ++ [tag])
              rw [ht]
              intro e he
              cases he
          | some s =>
              obtain ⟨num, rest⟩ := s
              obtain ⟨happ, hpos, hle⟩ := splitNumber_some hsplit
              rw [readSDNV_some hsplit, ok_bind]
              dsimp only
              by_cases hr : Refused num
              · have hresult : toInt (numberResult num) ≤ 0 := by
                  rw [numberResult, if_pos hr, toInt_refused]
                  decide
                rw [if_pos (Or.inl hr), if_pos hresult]
                exact ⟨_, errProcessing, rfl, Nat.succ_ne_zero n, rfl, by decide⟩
              have hresult : toInt (numberResult num) = num.length := by
                rw [numberResult, if_neg hr, toInt_of_lt]
                simp only [SDNV.maxLength] at hle
                omega
              have hnot : ¬(num.length : Int) ≤ 0 := by omega
              have htotal : (1 + num.length + (UInt64.ofNat (value num)).toNat) % 2 ^ 64 =
                  (1 + num.length + value num) % 2 ^ 64 := by
                rw [UInt64.toNat_ofNat', Nat.add_mod_mod]
              rw [hresult, if_neg hnot, Int.toNat_natCast, htotal]
              generalize htot : (1 + num.length + value num) % 2 ^ 64 = total
              by_cases hlong : (tag :: d).length < total
              · rw [if_pos (Or.inr (Or.inl hlong)), if_pos hlong]
                exact ⟨_, errLength, rfl, Nat.succ_ne_zero n, rfl, by decide⟩
              rw [if_neg hlong]
              have hall : (tag :: d).length < 2 ^ 31 := by
                rw [List.length_append] at hsize
                omega
              have hstruct : (1 + num.length + (UInt64.ofNat (value num)).toNat) % 2 ^ 32 = total := by
                omega
              have hback : (between (xs ++ [tag] ++ num) rest).seek
                  (Int.bmod (between xs (tag :: d)).tellg (2 ^ 32)) = between xs (tag :: d) := by
                have hxs : xs.length < 2 ^ 31 := by
                  rw [List.length_append] at hsize
                  omega
                rw [tellg_between, bmod_position hxs, List.append_assoc, seek_between, happ]
                rfl
              have hread := read_between xs (tag :: d) (Nat.le_of_not_lt hlong)
              have hbuf : ((tag :: d).take total).length = total :=
                List.length_take_of_le (Nat.le_of_not_lt hlong)
              rw [hstruct, hback, hread, hbuf, Nat.sub_self, List.replicate_zero, List.append_nil]
              -- the next round, when the plugin takes the structure or does not know it
              have hnext : ∀ found, LoopFollows (xs ++ tag :: d) (totalRead + (tag :: d).length)
                  ((servicesCourse n ((tag :: d).drop total)).mark (decide (value num ≤ rest.length)))
                  (readServicesLoop n
                    (between (xs ++ (tag :: d).take total) ((tag :: d).drop total))
                    ((tag :: d).length - total) (totalRead + total) found) := by
                intro found
                rw [loopFollows_mark]
                have hrest : ((tag :: d).drop total).length = (tag :: d).length - total :=
                  List.length_drop
                have hfollows := ih (xs ++ (tag :: d).take total) ((tag :: d).drop total)
                  (totalRead + total) found (by
                    rw [List.append_assoc, List.take_append_drop]
                    exact hsize)
                rw [hrest, List.append_assoc, List.take_append_drop] at hfollows
                have hbytes : totalRead + total + ((tag :: d).length - total) =
                    totalRead + (tag :: d).length := by omega
                rwa [hbytes] at hfollows
              obtain ⟨⟨svc, code⟩, hservice⟩ := readService_ok tag
                (show ((tag :: d).take total).length < 2 ^ 31 by omega)
              cases svc with
              | none =>
                  have hrefused := bodyRefused_none hservice
                  rw [hbuf] at hservice
                  rw [hservice, ok_bind, hrefused]
                  dsimp only
                  by_cases hzero : code = 0
                  · have hgood : ¬(Refused num ∨ (tag :: d).length < total ∨
                        decide (code ≠ 0) = true) :=
                      not_or.mpr ⟨hr, not_or.mpr ⟨hlong, by simp [hzero]⟩⟩
                    rw [if_neg hgood, if_neg (by omega), if_pos hzero]
                    exact hnext services
                  · rw [if_pos (Or.inr (Or.inr (decide_eq_true hzero)))]
                    by_cases hneg : code < 0
                    · rw [if_pos hneg]
                      exact ⟨_, code, rfl, Nat.succ_ne_zero n, rfl, hneg⟩
                    · rw [if_neg hneg, if_neg hzero]
                      exact ⟨_, errProcessing, rfl, Nat.succ_ne_zero n, rfl, by decide⟩
              | some svc =>
                  have hrefused := bodyRefused_some hservice
                  rw [hbuf] at hservice hrefused
                  rw [hservice, ok_bind, hrefused]
                  dsimp only
                  by_cases hgood : 0 < code ∧ code.toNat = total
                  · have hclear : ¬(Refused num ∨ (tag :: d).length < total ∨
                        decide (¬(0 < code ∧ code.toNat = total)) = true) :=
                      not_or.mpr ⟨hr, not_or.mpr ⟨hlong, by simp [hgood]⟩⟩
                    rw [if_neg hclear, if_pos hgood]
                    exact hnext (services ++ [svc])
                  · rw [if_pos (Or.inr (Or.inr (decide_eq_true hgood))), if_neg hgood]
                    exact ⟨_, errProcessing, rfl, Nat.succ_ne_zero n, rfl, by decide⟩

/-! ## The parts of a beacon -/

section Parts

variable (oasys : Oasys) (ann : IPNDAnnouncement)

/-- What a part of `parse` does on a course through `data`. -/
def PartFollows (data : Bytes) :
    Course → Except Trap (Bool × IPNDAnnouncement × InputStream UInt8) → Prop
  | .stuck, x => ∃ t, x = .error t
  | .rejected, x => ∃ a s, x = .ok (false, a, s)
  | .reached rest _, x => ∃ a xs, x = .ok (true, a, between xs rest) ∧
      a.version = ann.version ∧ a.flags = ann.flags ∧ xs ++ rest = data

theorem readStringWithSDNV_some {d num rest : Bytes}
    (h : splitNumber SDNV.maxLength d = some (num, rest)) (xs : Bytes)
    (hfits : value num % 2 ^ 64 ≤ rest.length) :
    readStringWithSDNV (between xs d) =
      .ok ((numberResult num + value num % 2 ^ 64) % 2 ^ 64, rest.take (value num % 2 ^ 64),
        between (xs ++ num ++ rest.take (value num % 2 ^ 64)) (rest.drop (value num % 2 ^ 64))) := by
  have hne : numberResult num ≠ 0 := Nat.ne_of_gt (numberResult_pos h)
  have hlen : (rest.take (value num % 2 ^ 64)).length = value num % 2 ^ 64 :=
    List.length_take_of_le hfits
  rw [readStringWithSDNV, readSDNV_some h, ok_bind]
  dsimp only
  rw [if_neg hne, UInt64.toNat_ofNat', read_between _ _ hfits, hlen, if_neg (Nat.lt_irrefl _)]

theorem readStringWithSDNV_short {d num rest : Bytes}
    (h : splitNumber SDNV.maxLength d = some (num, rest)) (xs : Bytes)
    (hshort : rest.length < value num % 2 ^ 64) :
    readStringWithSDNV (between xs d) = .error .unset := by
  have hne : numberResult num ≠ 0 := Nat.ne_of_gt (numberResult_pos h)
  rw [readStringWithSDNV, readSDNV_some h, ok_bind]
  dsimp only
  rw [if_neg hne, UInt64.toNat_ofNat', read_short _ _ hshort, if_pos hshort]

theorem stringResult_zero {d num rest : Bytes} (h : splitNumber SDNV.maxLength d = some (num, rest))
    (hfits : value num % 2 ^ 64 ≤ rest.length) (hsize : rest.length < 2 ^ 31) :
    (numberResult num + value num % 2 ^ 64) % 2 ^ 64 = 0 ↔ Refused num ∧ value num % 2 ^ 64 = 1 := by
  obtain ⟨-, hpos, hle⟩ := splitNumber_some h
  rw [SDNV.maxLength] at hle
  by_cases hr : Refused num
  · rw [numberResult, if_pos hr]
    constructor
    · intro hzero
      exact ⟨hr, by omega⟩
    · rintro ⟨-, hone⟩
      omega
  · rw [numberResult, if_neg hr]
    constructor
    · intro hzero
      omega
    · rintro ⟨hr', -⟩
      exact absurd hr' hr

theorem parseEid_follows (xs d : Bytes) (hsize : (xs ++ d).length < 2 ^ 31) :
    PartFollows ann (xs ++ d) (eidCourse ann.flags d) (ann.parseEid oasys (between xs d)) := by
  rw [eidCourse, IPNDAnnouncement.parseEid]
  by_cases hflag : ann.flags &&& beaconContainsEid ≠ 0
  · rw [if_pos hflag, if_pos hflag]
    cases hsplit : splitNumber SDNV.maxLength d with
    | none =>
        obtain ⟨t, ht⟩ := readSDNV_none hsplit xs
        refine ⟨t, ?_⟩
        rw [readStringWithSDNV, ht]
        rfl
    | some s =>
        obtain ⟨num, rest⟩ := s
        obtain ⟨happ, -, -⟩ := splitNumber_some hsplit
        dsimp only
        by_cases hshort : rest.length < value num % 2 ^ 64
        · rw [if_pos hshort, readStringWithSDNV_short hsplit xs hshort]
          exact ⟨.unset, rfl⟩
        · have hfits := Nat.le_of_not_lt hshort
          have hrest : rest.length < 2 ^ 31 := by
            rw [happ, List.length_append, List.length_append] at hsize
            omega
          rw [if_neg hshort, readStringWithSDNV_some hsplit xs hfits, ok_bind]
          dsimp only
          by_cases hone : Refused num ∧ value num % 2 ^ 64 = 1
          · rw [if_pos hone, if_pos ((stringResult_zero hsplit hfits hrest).mpr hone)]
            exact ⟨_, _, rfl⟩
          · rw [if_neg hone, if_neg fun hz => hone ((stringResult_zero hsplit hfits hrest).mp hz)]
            refine ⟨_, _, rfl, rfl, rfl, ?_⟩
            rw [List.append_assoc, List.take_append_drop, happ, List.append_assoc]
  · rw [if_neg hflag, if_neg hflag]
    exact ⟨ann, xs, rfl, rfl, rfl, rfl⟩

theorem readServices_between (n : Nat) (xs d : Bytes) (hsize : (xs ++ d).length < 2 ^ 31) :
    readServices n (between xs d) =
      if d.length < 4 then .ok ([], some errLength, between (xs ++ d) [])
      else readServicesLoop n (between xs d) d.length 0 [] >>= fun e =>
        .ok (e.services, if e.left = 0 then some (toInt e.totalRead) else e.numRead, e.input) := by
  have hlen : (xs ++ d).length = xs.length + d.length := List.length_append
  have hxs : Int.bmod (between xs d).tellg (2 ^ 32) = xs.length := by
    rw [tellg_between, bmod_position (by omega)]
  have hend : Int.bmod (between (xs ++ d) []).tellg (2 ^ 32) = (xs ++ d).length := by
    rw [tellg_between, bmod_position hsize]
  have hremain : (((xs ++ d).length - (xs.length : Int)) % 2 ^ 32).toNat = d.length := by omega
  have hseek : (between (xs ++ d) []).seek xs.length = between xs d := by
    rw [seek_between, List.append_nil]
  simp only [readServices, seekEnd_between, hxs, hend, hremain, hseek]

theorem parseServices_follows (xs d : Bytes) (hsize : (xs ++ d).length < 2 ^ 31) :
    PartFollows ann (xs ++ d) (blockCourse ann.version ann.flags d)
      (ann.parseServices (between xs d)) := by
  unfold blockCourse IPNDAnnouncement.parseServices
  by_cases hflag : 4 ≤ ann.version ∧ ann.flags &&& beaconServiceBlock ≠ 0
  · rw [if_pos hflag, if_pos hflag]
    cases hsplit : splitNumber SDNV.maxLength d with
    | none =>
        obtain ⟨t, ht⟩ := readSDNV_none hsplit xs
        refine ⟨t, ?_⟩
        rw [ht]
        rfl
    | some s =>
        obtain ⟨num, rest⟩ := s
        obtain ⟨happ, -, -⟩ := splitNumber_some hsplit
        have hne : numberResult num ≠ 0 := Nat.ne_of_gt (numberResult_pos hsplit)
        have hzero : UInt64.ofNat (value num) = 0 ↔ value num % 2 ^ 64 = 0 := by
          rw [← UInt64.toNat_inj, UInt64.toNat_ofNat', UInt64.toNat_zero]
        have hcount : (UInt64.ofNat (value num)).toNat % 2 ^ 32 = value num % 2 ^ 32 := by
          rw [UInt64.toNat_ofNat']
          omega
        have hdata : xs ++ num ++ rest = xs ++ d := by rw [happ, List.append_assoc]
        rw [readSDNV_some hsplit, ok_bind]
        dsimp only
        rw [if_neg hne]
        by_cases hnone : value num % 2 ^ 64 = 0
        · rw [if_pos hnone, if_pos (hzero.mpr hnone)]
          exact ⟨_, _, rfl, rfl, rfl, hdata⟩
        rw [if_neg hnone, if_neg fun h => hnone (hzero.mp h), hcount]
        have hsize' : (xs ++ num ++ rest).length < 2 ^ 31 := by rwa [hdata]
        by_cases hshort : rest.length < 4
        · rw [if_pos hshort, readServices_between _ _ _ hsize', if_pos hshort]
          exact ⟨_, _, rfl⟩
        · rw [if_neg hshort, readServices_between _ _ _ hsize', if_neg hshort]
          have hfollows := readServicesLoop_follows (value num % 2 ^ 32) (xs ++ num) rest 0 [] hsize'
          rw [hdata] at hfollows
          generalize readServicesLoop (value num % 2 ^ 32) (between (xs ++ num) rest) rest.length 0 [] =
            x at hfollows ⊢
          cases hcourse : servicesCourse (value num % 2 ^ 32) rest with
          | stuck =>
              rw [hcourse] at hfollows
              cases x with
              | error t => exact ⟨t, rfl⟩
              | ok e =>
                  obtain ⟨hleft, hnum⟩ := hfollows e rfl
                  refine ⟨.unset, ?_⟩
                  rw [ok_bind, ok_bind, if_neg hleft, hnum]
                  rfl
          | rejected =>
              rw [hcourse] at hfollows
              obtain ⟨e, code, rfl, hleft, hnum, hneg⟩ := hfollows
              rw [ok_bind, ok_bind, if_neg hleft, hnum]
              have hfalse : decide (0 < code) = false := decide_eq_false (by omega)
              refine ⟨{ ann with services := e.services.map ClaService.toService }, e.input, ?_⟩
              rw [IPNDAnnouncement.afterServices, hfalse]
          | reached rest' clean =>
              rw [hcourse] at hfollows
              obtain ⟨e, ys, rfl, hleft, hinput, hbytes, hdata'⟩ := hfollows
              rw [Nat.zero_add] at hbytes
              rw [ok_bind, ok_bind, if_pos hleft, hinput]
              dsimp only [IPNDAnnouncement.afterServices]
              have htotal : toInt e.totalRead = e.totalRead := by
                apply toInt_of_lt
                rw [List.length_append] at hsize'
                omega
              by_cases hnothing : rest'.length = rest.length
              · have hused : e.totalRead = 0 := Nat.add_eq_right.mp (hbytes.trans hnothing.symm)
                rw [if_pos hnothing, hused]
                exact ⟨_, _, rfl⟩
              · have hused : 0 < e.totalRead := by
                  apply Nat.pos_of_ne_zero
                  intro h0
                  rw [h0, Nat.zero_add] at hbytes
                  exact hnothing hbytes
                have htrue : decide (0 < toInt e.totalRead) = true := by
                  rw [htotal]
                  exact decide_eq_true (Int.natCast_pos.mpr hused)
                rw [if_neg hnothing, htrue]
                exact ⟨_, _, rfl, rfl, rfl, hdata'⟩
  · rw [if_neg hflag, if_neg hflag]
    exact ⟨ann, xs, rfl, rfl, rfl, rfl⟩

/-- What `parse` does on a course through its last part. -/
def EndFollows : Course → Except Trap (Bool × IPNDAnnouncement) → Prop
  | .stuck, x => ∃ t, x = .error t
  | .rejected, x => ∃ a, x = .ok (false, a)
  | .reached _ _, x => ∃ a, x = .ok (true, a)

theorem endFollows_mark (b : Bool) (c : Course) (x : Except Trap (Bool × IPNDAnnouncement)) :
    EndFollows (c.mark b) x ↔ EndFollows c x := by
  cases c <;> rfl

theorem parsePeriod_follows (xs d : Bytes) :
    EndFollows (periodCourse ann.version ann.flags d) (ann.parsePeriod (between xs d)) := by
  unfold periodCourse IPNDAnnouncement.parsePeriod
  by_cases hflag : 3 ≤ ann.version ∧ ann.flags &&& beaconContainsPeriod ≠ 0
  · rw [if_pos hflag, if_pos hflag]
    cases hsplit : splitNumber SDNV.maxLength d with
    | none =>
        obtain ⟨t, ht⟩ := readSDNV_none hsplit xs
        refine ⟨t, ?_⟩
        rw [ht]
        rfl
    | some s =>
        obtain ⟨num, rest⟩ := s
        have hne : numberResult num ≠ 0 := Nat.ne_of_gt (numberResult_pos hsplit)
        rw [readSDNV_some hsplit, ok_bind]
        dsimp only
        rw [if_neg hne]
        exact ⟨_, rfl⟩
  · rw [if_neg hflag, if_neg hflag]
    exact ⟨ann, rfl⟩

theorem parseBody_follows (xs d : Bytes) (hsize : (xs ++ d).length < 2 ^ 31) :
    EndFollows (bodyCourse ann.version ann.flags d) (ann.parseBody oasys (between xs d)) := by
  have heid := parseEid_follows oasys ann xs d hsize
  unfold bodyCourse IPNDAnnouncement.parseBody
  cases heidCourse : eidCourse ann.flags d with
  | stuck =>
      rw [heidCourse] at heid
      obtain ⟨t, ht⟩ := heid
      rw [ht]
      exact ⟨t, rfl⟩
  | rejected =>
      rw [heidCourse] at heid
      obtain ⟨a, s, ha⟩ := heid
      rw [ha]
      exact ⟨a, rfl⟩
  | reached rest clean =>
      rw [heidCourse] at heid
      obtain ⟨a, ys, ha, hversion, hflags, hdata⟩ := heid
      have hblock := parseServices_follows a ys rest (by rwa [hdata])
      rw [hversion, hflags] at hblock
      rw [ha, ok_bind]
      rw [if_neg (Bool.false_ne_true ∘ Eq.symm), Course.reached_andThen, Course.mark_andThen, endFollows_mark]
      cases hblockCourse : blockCourse ann.version ann.flags rest with
      | stuck =>
          rw [hblockCourse] at hblock
          obtain ⟨t, ht⟩ := hblock
          rw [ht]
          exact ⟨t, rfl⟩
      | rejected =>
          rw [hblockCourse] at hblock
          obtain ⟨b, s, hb⟩ := hblock
          rw [hb]
          exact ⟨b, rfl⟩
      | reached rest' clean' =>
          rw [hblockCourse] at hblock
          obtain ⟨b, zs, hb, hversion', hflags', -⟩ := hblock
          have hperiod := parsePeriod_follows b zs rest'
          rw [hversion', hflags', hversion, hflags] at hperiod
          rw [hb, ok_bind]
          rw [if_neg (Bool.false_ne_true ∘ Eq.symm), Course.reached_andThen, endFollows_mark]
          exact hperiod

theorem parseBody_failed (s : InputStream UInt8) (h : s.failed = true) :
    (∃ t, ann.parseBody oasys s = .error t) ∨ ∃ a, ann.parseBody oasys s = .ok (true, a) := by
  have hnumber := readSDNV_failed h
  by_cases heid : ann.flags &&& beaconContainsEid ≠ 0
  · have hparse : ann.parseEid oasys s = .error .unset := by
      rw [IPNDAnnouncement.parseEid, if_pos heid, readStringWithSDNV, hnumber]
      rfl
    refine Or.inl ⟨.unset, ?_⟩
    rw [IPNDAnnouncement.parseBody, hparse]
    rfl
  have hparse : ann.parseEid oasys s = .ok (true, ann, s) := by
    rw [IPNDAnnouncement.parseEid, if_neg heid]
  rw [IPNDAnnouncement.parseBody, hparse, ok_bind]
  dsimp only
  rw [if_neg (Bool.false_ne_true ∘ Eq.symm)]
  by_cases hblock : 4 ≤ ann.version ∧ ann.flags &&& beaconServiceBlock ≠ 0
  · refine Or.inl ⟨.unset, ?_⟩
    rw [IPNDAnnouncement.parseServices, if_pos hblock, hnumber]
    rfl
  rw [IPNDAnnouncement.parseServices, if_neg hblock, ok_bind]
  dsimp only
  rw [if_neg (Bool.false_ne_true ∘ Eq.symm)]
  by_cases hperiod : 3 ≤ ann.version ∧ ann.flags &&& beaconContainsPeriod ≠ 0
  · refine Or.inl ⟨.unset, ?_⟩
    rw [IPNDAnnouncement.parsePeriod, if_pos hperiod, hnumber]
    rfl
  · refine Or.inr ⟨ann, ?_⟩
    rw [IPNDAnnouncement.parsePeriod, if_neg hperiod]

end Parts

/-! ## Clean courses go through well-formed beacons -/

/-- A course and the layout of the datagram agree: what is clean is well-formed up to the same place,
and what is not clean is malformed. -/
def Agrees : Course → Option Bytes → Prop
  | .reached rest true, x => x = some rest
  | .reached _ false, x => x = none
  | _, _ => True

theorem Agrees.andThen {c : Course} {x : Option Bytes} {f : Bytes → Course}
    {g : Bytes → Option Bytes} (h : Agrees c x)
    (hnext : ∀ rest, x = some rest → Agrees (f rest) (g rest)) : Agrees (c.andThen f) (x.bind g) := by
  cases c with
  | stuck => trivial
  | rejected => trivial
  | reached rest clean =>
      rw [Course.reached_andThen]
      cases clean with
      | false =>
          rw [show x = none from h]
          cases f rest <;> trivial
      | true =>
          have hx : x = some rest := h
          have hmark : (f rest).mark true = f rest := by cases f rest <;> rfl
          rw [hx, Option.bind_some, hmark]
          exact hnext rest hx

theorem field?_of_split {d num rest : Bytes} (h : splitNumber SDNV.maxLength d = some (num, rest))
    (hsize : d.length < 2 ^ 31) :
    field? d = if value num ≤ rest.length then some (rest.drop (value num)) else none := by
  have hrest : rest.length < 2 ^ 31 := by
    rw [(splitNumber_some h).1, List.length_append] at hsize
    omega
  rw [field?, number?_of_split h]
  by_cases hle : value num ≤ rest.length
  · have hfits : value num < 2 ^ 64 := by omega
    simp only [if_pos hfits]
  · by_cases hfits : value num < 2 ^ 64
    · simp only [if_pos hfits]
    · simp only [if_neg hfits, if_neg hle]

theorem field?_length {d rest : Bytes} (h : field? d = some rest) : rest.length < d.length := by
  rw [field?, number?] at h
  cases hsplit : splitNumber d.length d with
  | none =>
      rw [hsplit] at h
      cases h
  | some s =>
      obtain ⟨num, tail⟩ := s
      obtain ⟨happ, hpos, -⟩ := splitNumber_some hsplit
      rw [hsplit] at h
      by_cases hfits : value num < 2 ^ 64
      · by_cases hle : value num ≤ tail.length
        · simp only [if_pos hfits, if_pos hle] at h
          cases h
          rw [happ, List.length_append, List.length_drop]
          omega
        · simp only [if_pos hfits, if_neg hle] at h
          cases h
      · simp only [if_neg hfits] at h
        cases h

theorem services?_count {n : Nat} {d rest : Bytes} (h : services? n d = some rest) :
    n ≤ d.length := by
  induction n generalizing d with
  | zero => exact Nat.zero_le _
  | succ n ih =>
      cases d with
      | nil => cases h
      | cons tag d =>
          rw [services?] at h
          obtain ⟨d', hfield, hrest⟩ := Option.bind_eq_some_iff.mp h
          have hlen := field?_length hfield
          have hle := ih hrest
          rw [List.length_cons]
          omega

theorem eidCourse_agrees (flags : UInt8) (d : Bytes) (hsize : d.length < 2 ^ 31) :
    Agrees (eidCourse flags d) (eid? flags d) := by
  rw [eidCourse, eid?]
  by_cases hflag : flags &&& beaconContainsEid ≠ 0
  · rw [if_pos hflag, if_pos hflag]
    cases hsplit : splitNumber SDNV.maxLength d with
    | none => trivial
    | some s =>
        obtain ⟨num, rest⟩ := s
        dsimp only
        by_cases hshort : rest.length < value num % 2 ^ 64
        · rw [if_pos hshort]
          trivial
        rw [if_neg hshort]
        by_cases hone : Refused num ∧ value num % 2 ^ 64 = 1
        · rw [if_pos hone]
          trivial
        rw [if_neg hone, field?_of_split hsplit hsize]
        by_cases hfits : value num < 2 ^ 64
        · rw [Nat.mod_eq_of_lt hfits] at hshort
          rw [decide_eq_true hfits, Nat.mod_eq_of_lt hfits, if_pos (Nat.le_of_not_lt hshort)]
          rfl
        · have hrest : rest.length < 2 ^ 31 := by
            rw [(splitNumber_some hsplit).1, List.length_append] at hsize
            omega
          rw [decide_eq_false hfits, if_neg (by omega)]
          rfl
  · rw [if_neg hflag, if_neg hflag]
    rfl

theorem servicesCourse_agrees (n : Nat) (d : Bytes) (hsize : d.length < 2 ^ 31) :
    Agrees (servicesCourse n d) (services? n d) := by
  induction n generalizing d with
  | zero => rfl
  | succ n ih =>
      cases d with
      | nil => trivial
      | cons tag d =>
          unfold servicesCourse services?
          by_cases hshort : d.length < 3
          · rw [if_pos hshort]
            trivial
          rw [if_neg hshort]
          cases hsplit : splitNumber SDNV.maxLength d with
          | none => trivial
          | some s =>
              obtain ⟨num, rest⟩ := s
              obtain ⟨happ, -, hle⟩ := splitNumber_some hsplit
              rw [List.length_cons] at hsize
              have hlen : d.length = num.length + rest.length := by
                rw [happ, List.length_append]
              dsimp only
              generalize htot : (1 + num.length + value num) % 2 ^ 64 = total
              split
              · trivial
              · rw [field?_of_split hsplit (by omega)]
                by_cases hin : value num ≤ rest.length
                · have htotal : total = 1 + (num.length + value num) := by omega
                  have hdrop : (tag :: d).drop total = rest.drop (value num) := by
                    rw [htotal, Nat.add_comm 1, List.drop_succ_cons, happ, List.drop_append]
                    simp
                  have hmark : ∀ c : Course, c.mark true = c := by
                    intro c
                    cases c <;> rfl
                  rw [decide_eq_true hin, hmark, if_pos hin, hdrop]
                  apply ih
                  rw [List.length_drop]
                  omega
                · rw [decide_eq_false hin, if_neg hin]
                  cases servicesCourse n ((tag :: d).drop total) <;> trivial

theorem blockCourse_agrees (version flags : UInt8) (d : Bytes) (hsize : d.length < 2 ^ 31) :
    Agrees (blockCourse version flags d) (block? version flags d) := by
  rw [blockCourse, block?]
  by_cases hflag : 4 ≤ version ∧ flags &&& beaconServiceBlock ≠ 0
  · rw [if_pos hflag, if_pos hflag]
    cases hsplit : splitNumber SDNV.maxLength d with
    | none => trivial
    | some s =>
        obtain ⟨num, rest⟩ := s
        have hrest : rest.length < 2 ^ 31 := by
          rw [(splitNumber_some hsplit).1, List.length_append] at hsize
          omega
        have hnumber := number?_of_split hsplit
        dsimp only
        by_cases hnone : value num % 2 ^ 64 = 0
        · rw [if_pos hnone, hnumber]
          by_cases hfits : value num < 2 ^ 64
          · have hzero : value num = 0 := by omega
            rw [if_pos hfits, decide_eq_true hfits, Option.bind_some, hzero]
            rfl
          · rw [if_neg hfits, decide_eq_false hfits]
            rfl
        rw [if_neg hnone]
        by_cases hshort : rest.length < 4
        · rw [if_pos hshort]
          trivial
        rw [if_neg hshort]
        have hservices := servicesCourse_agrees (value num % 2 ^ 32) rest hrest
        cases hcourse : servicesCourse (value num % 2 ^ 32) rest with
        | stuck => trivial
        | rejected => trivial
        | reached rest' clean =>
            rw [hcourse] at hservices
            dsimp only
            by_cases hnothing : rest'.length = rest.length
            · rw [if_pos hnothing]
              trivial
            rw [if_neg hnothing]
            by_cases hcount : value num < 2 ^ 32
            · have hfits : value num < 2 ^ 64 := by omega
              rw [Nat.mod_eq_of_lt hcount] at hservices
              rw [hnumber, if_pos hfits, Option.bind_some, decide_eq_true hcount]
              exact hservices
            · -- more services are announced than there are bytes
              have hmissing : (number? d).bind (fun n => services? n.1 n.2) = none := by
                rw [hnumber]
                by_cases hfits : value num < 2 ^ 64
                · rw [if_pos hfits, Option.bind_some]
                  cases hserv : services? (value num) rest with
                  | none => rfl
                  | some x =>
                      have hle := services?_count hserv
                      omega
                · rw [if_neg hfits]
                  rfl
              rw [decide_eq_false hcount, hmissing]
              rfl
  · rw [if_neg hflag, if_neg hflag]
    rfl

theorem periodCourse_agrees (version flags : UInt8) (d : Bytes) :
    Agrees (periodCourse version flags d) (period? version flags d) := by
  rw [periodCourse, period?]
  by_cases hflag : 3 ≤ version ∧ flags &&& beaconContainsPeriod ≠ 0
  · rw [if_pos hflag, if_pos hflag]
    cases hsplit : splitNumber SDNV.maxLength d with
    | none => trivial
    | some s =>
        obtain ⟨num, rest⟩ := s
        rw [number?_of_split hsplit]
        by_cases hfits : value num < 2 ^ 64
        · rw [if_pos hfits]
          change Agrees (.reached rest (decide (value num < 2 ^ 64))) _
          rw [decide_eq_true hfits]
          rfl
        · rw [if_neg hfits]
          change Agrees (.reached rest (decide (value num < 2 ^ 64))) _
          rw [decide_eq_false hfits]
          rfl
  · rw [if_neg hflag, if_neg hflag]
    rfl

theorem eid?_length {flags : UInt8} {d rest : Bytes} (h : eid? flags d = some rest) :
    rest.length ≤ d.length := by
  rw [eid?] at h
  by_cases hflag : flags &&& beaconContainsEid ≠ 0
  · rw [if_pos hflag] at h
    exact Nat.le_of_lt (field?_length h)
  · rw [if_neg hflag] at h
    cases h
    exact Nat.le_refl _

theorem bodyCourse_agrees (version flags : UInt8) (d : Bytes) (hsize : d.length < 2 ^ 31) :
    Agrees (bodyCourse version flags d)
      (((eid? flags d).bind (block? version flags)).bind (period? version flags)) := by
  apply Agrees.andThen
  · apply (eidCourse_agrees flags d hsize).andThen
    intro rest hrest
    exact blockCourse_agrees version flags rest (Nat.lt_of_le_of_lt (eid?_length hrest) hsize)
  · intro rest _
    exact periodCourse_agrees version flags rest

/-! ## The whole parser -/

/-- The parser returns without using anything unset or outside its buffers, and it rejects a malformed
datagram. -/
def Safe (oasys : Oasys) (ann : IPNDAnnouncement) (d : Bytes) : Prop :=
  ∃ r, ann.parse oasys d = .ok r ∧ (beacon? d = none → r.1 = false)

theorem not_safe_of_failed {oasys : Oasys} {ann a : IPNDAnnouncement} {s : InputStream UInt8} {d : Bytes}
    (hparse : ann.parse oasys d = a.parseBody oasys s) (hfailed : s.failed = true)
    (hmalformed : beacon? d = none) : ¬Safe oasys ann d := by
  intro hsafe
  obtain ⟨r, hr, hfalse⟩ := hsafe
  rw [hparse] at hr
  cases parseBody_failed oasys a s hfailed with
  | inl herror =>
      obtain ⟨t, ht⟩ := herror
      rw [ht] at hr
      cases hr
  | inr htrue =>
      obtain ⟨b, hb⟩ := htrue
      rw [hb] at hr
      cases hr
      cases hfalse hmalformed

theorem parse_unsupported (oasys : Oasys) (ann : IPNDAnnouncement) {version : UInt8} (d : Bytes)
    (h : ¬2 ≤ version) :
    ann.parse oasys (version :: d) = .ok (false, { ann with version := version }) :=
  if_neg h

theorem parse_header (oasys : Oasys) (ann : IPNDAnnouncement) {version : UInt8} (h : 2 ≤ version)
    (flags x y : UInt8) (d : Bytes) :
    ∃ a : IPNDAnnouncement, a.version = version ∧ a.flags = flags ∧
      ann.parse oasys (version :: flags :: x :: y :: d) =
        a.parseBody oasys (between [version, flags, x, y] d) :=
  ⟨_, rfl, rfl, if_pos h⟩

theorem header_cases (header : Bytes) :
    (header = [] ∨ (∃ f, header = [f]) ∨ ∃ f x, header = [f, x]) ∨
      ∃ f x y d, header = f :: x :: y :: d := by
  cases header with
  | nil => exact Or.inl (Or.inl rfl)
  | cons f header =>
      cases header with
      | nil => exact Or.inl (Or.inr (Or.inl ⟨f, rfl⟩))
      | cons x header =>
          cases header with
          | nil => exact Or.inl (Or.inr (Or.inr ⟨f, x, rfl⟩))
          | cons y d => exact Or.inr ⟨f, x, y, d, rfl⟩

theorem parse_incomplete (oasys : Oasys) (ann : IPNDAnnouncement) {version : UInt8} (h : 2 ≤ version)
    {header : Bytes} (hshort : header = [] ∨ (∃ f, header = [f]) ∨ ∃ f x, header = [f, x]) :
    ¬Safe oasys ann (version :: header) ∧ ¬Handled (version :: header) := by
  have hnot : ¬(version < 2 ∨ False) := by
    rw [or_false, UInt8.not_lt]
    exact h
  rcases hshort with rfl | ⟨f, rfl⟩ | ⟨f, x, rfl⟩
  · exact ⟨not_safe_of_failed (s := ⟨[version], [], true⟩) (if_pos h) rfl rfl, hnot⟩
  · exact ⟨not_safe_of_failed (s := ⟨[version, f], [], true⟩) (if_pos h) rfl rfl, hnot⟩
  · exact ⟨not_safe_of_failed (s := ⟨[version, f, x], [], true⟩) (if_pos h) rfl rfl, hnot⟩

theorem parse_complete (oasys : Oasys) (ann : IPNDAnnouncement) {version : UInt8} (h : 2 ≤ version)
    (flags x y : UInt8) (d : Bytes) (hsize : (version :: flags :: x :: y :: d).length < 2 ^ 31) :
    Safe oasys ann (version :: flags :: x :: y :: d) ↔ (bodyCourse version flags d).Sound := by
  obtain ⟨a, hversion, hflags, hparse⟩ := parse_header oasys ann h flags x y d
  simp only [List.length_cons] at hsize
  have hfollows := parseBody_follows oasys a [version, flags, x, y] d (by
    simp only [List.length_append, List.length_cons, List.length_nil]
    omega)
  have hagrees := bodyCourse_agrees version flags d (by omega)
  rw [hversion, hflags] at hfollows
  rw [Safe, hparse]
  cases hcourse : bodyCourse version flags d with
  | stuck =>
      rw [hcourse] at hfollows
      obtain ⟨t, ht⟩ := hfollows
      rw [ht]
      refine iff_of_false ?_ id
      intro hsafe
      obtain ⟨r, hr, -⟩ := hsafe
      cases hr
  | rejected =>
      rw [hcourse] at hfollows
      obtain ⟨b, hb⟩ := hfollows
      exact iff_of_true ⟨_, hb, fun _ => rfl⟩ trivial
  | reached rest clean =>
      rw [hcourse] at hfollows hagrees
      obtain ⟨b, hb⟩ := hfollows
      cases clean with
      | true =>
          refine iff_of_true ⟨_, hb, ?_⟩ rfl
          intro hmalformed
          have hsome : beacon? (version :: flags :: x :: y :: d) = some rest := hagrees
          rw [hmalformed] at hsome
          cases hsome
      | false =>
          refine iff_of_false ?_ Bool.false_ne_true
          intro hsafe
          obtain ⟨r, hr, hfalse⟩ := hsafe
          rw [hb] at hr
          cases hr
          cases hfalse hagrees

/-- For every datagram whose positions fit an `int`, and every announcement, the parser is safe and
rejects what is malformed exactly if the datagram is handled. -/
theorem parse_safe (oasys : Oasys) (ann : IPNDAnnouncement) (d : Bytes) (hsize : d.length < 2 ^ 31) :
    Safe oasys ann d ↔ Handled d := by
  cases d with
  | nil => exact iff_of_false (not_safe_of_failed (s := ⟨[], [], true⟩) rfl rfl rfl) id
  | cons version header =>
      by_cases hversion : 2 ≤ version
      · have hlt : ¬version < 2 := UInt8.not_lt.mpr hversion
        rcases header_cases header with hshort | ⟨f, x, y, d, rfl⟩
        · obtain ⟨hsafe, hhandled⟩ := parse_incomplete oasys ann hversion hshort
          exact iff_of_false hsafe hhandled
        · exact (parse_complete oasys ann hversion f x y d hsize).trans (or_iff_right hlt).symm
      · rw [Safe, parse_unsupported oasys ann header hversion]
        exact iff_of_true ⟨_, rfl, fun _ => rfl⟩ (Or.inl (UInt8.not_le.mp hversion))

def IPNDAnnouncement.fresh : IPNDAnnouncement := ⟨4, 0, 0, EndpointID.default, [], 0⟩

/-- A beacon with the endpoint id "a:b", one service and a period. -/
def sampleBeacon : Bytes :=
  [4, 11, 0, 7, 3, 0x61, 0x3a, 0x62, 1, 64, 8, 3, 0x11, 0xcc, 4, 1, 2, 3, 4, 30]

theorem parse_safe_sample :
    sampleBeacon.length < 2 ^ 31 ∧ Safe Oasys.plain .fresh sampleBeacon :=
  ⟨by decide, (parse_safe Oasys.plain .fresh sampleBeacon (by decide)).mpr (Or.inr (by decide +kernel))⟩

/-- The count announces a service more than the datagram holds: the result of the service loop is used
although it was never set. -/
theorem missing_service :
    IPNDAnnouncement.fresh.parse Oasys.plain [4, 2, 0, 7, 2, 64, 8, 3, 0x11, 0xcc, 4, 1, 2, 3, 4] =
        .error .unset ∧
      ¬Safe Oasys.plain .fresh [4, 2, 0, 7, 2, 64, 8, 3, 0x11, 0xcc, 4, 1, 2, 3, 4] := by
  have hunset : IPNDAnnouncement.fresh.parse Oasys.plain
      [4, 2, 0, 7, 2, 64, 8, 3, 0x11, 0xcc, 4, 1, 2, 3, 4] = .error .unset := rfl
  refine ⟨hunset, ?_⟩
  intro hsafe
  obtain ⟨r, hr, -⟩ := hsafe
  rw [hunset] at hr
  cases hr

end IPND

end Dtn2
