import Wsprrs.Buffer.Placement

/-! What the gap count of a window says about its samples, when the packets of one stream arrive in
order and some of them are lost. -/
namespace Wsprrs
open SourcePacket

/-- The packets of a sender: numbered modulo 2^16, each beginning where the one before it ends. -/
structure Stream where
  packet : ℕ → SourcePacket
  rtpSeq_succ : ∀ j, (packet (j+1)).rtpSeq = (packet j).rtpSeq + 1
  start_succ : ∀ j, (packet (j+1)).start = (packet j).start + (packet j).count

namespace Stream
variable {st : Stream}

theorem rtpSeq_add (st : Stream) (j n : ℕ) :
    (st.packet (j+n)).rtpSeq = (st.packet j).rtpSeq + UInt16.ofNat n := by
  induction n with
  | zero => simp
  | succ n ih => rw [← Nat.add_assoc, st.rtpSeq_succ, ih, UInt16.add_assoc, UInt16.ofNat_add]; rfl

/-- The numbers show a loss of up to 2^16 packets. -/
theorem rtpSeq_eq_succ_iff {a b : ℕ} (hlt : a < b) (hle : b ≤ a + 2^16) :
    (st.packet b).rtpSeq = (st.packet a).rtpSeq + 1 ↔ b = a+1 := by
  obtain ⟨n, rfl⟩ := Nat.exists_eq_add_of_le hlt.le
  have hone : UInt16.ofNat n = 1 ↔ n = 1 := by
    rw [← UInt16.toNat_inj, UInt16.toNat_ofNat']
    change n % 2^16 = 1 ↔ n = 1
    omega
  rw [st.rtpSeq_add, UInt16.add_right_inj, hone]
  omega

theorem start_mono (st : Stream) : Monotone (fun j => (st.packet j).start) := by
  apply monotone_nat_of_le_succ
  intro j
  have := st.start_succ j
  omega

/-- Every sample between two packets is in one of the packets between them. -/
theorem exists_contains {a m : ℕ} (hle : a ≤ m) {k : ℤ} (hlow : (st.packet a).start ≤ k)
    (hhigh : k < (st.packet (m+1)).start) : ∃ j, a ≤ j ∧ j ≤ m ∧ (st.packet j).Contains k := by
  induction m, hle using Nat.le_induction with
  | base => exact ⟨a, le_rfl, le_rfl, hlow, by rw [← st.start_succ]; exact hhigh⟩
  | succ m hle ih =>
    by_cases hk : k < (st.packet (m+1)).start
    · obtain ⟨j, haj, hjm, hcontains⟩ := ih hk
      exact ⟨j, haj, by omega, hcontains⟩
    · exact ⟨m+1, by omega, le_rfl, not_lt.mp hk, by rw [← st.start_succ]; exact hhigh⟩

end Stream

/-- How many packets do not come right after the one before them. -/
def interruptions : ℕ → List ℕ → ℕ
  | _, [] => 0
  | a, b::bs => (if b = a+1 then 0 else 1) + interruptions b bs

/-- Without an interruption every packet up to the last one is there. -/
theorem mem_of_uninterrupted {a : ℕ} {bs : List ℕ} (h : interruptions a bs = 0) {m j : ℕ}
    (hm : m ∈ a::bs) (haj : a ≤ j) (hjm : j ≤ m) : j ∈ a::bs := by
  induction bs generalizing a with
  | nil =>
    obtain rfl := List.mem_singleton.mp hm
    exact List.mem_singleton.mpr (by omega)
  | cons b bs ih =>
    simp only [interruptions, Nat.add_eq_zero_iff] at h
    obtain ⟨hnext, hrest⟩ := h
    obtain rfl : b = a+1 := by
      by_contra hne
      simp [hne] at hnext
    obtain rfl | hlt := haj.eq_or_lt
    · exact List.mem_cons_self
    · obtain rfl | hm := List.mem_cons.mp hm
      · omega
      · exact List.mem_cons_of_mem _ (ih hrest hm hlt)

namespace AudioWindow

theorem ingest_gapCount (w : AudioWindow) (call : IngestCall) :
    (w.ingest call).1.gapCount = (w.noteSeq call.rtpSeq).gapCount ∧
    (w.ingest call).1.lastSeq = some call.rtpSeq := by
  have hframe := anchored_frame w (w.wallOf call) call
  unfold ingest
  obtain ⟨-, h⟩ | ⟨offset, -, -, h⟩ | ⟨offset, -, -, h⟩ := ingestAt_cases w (w.wallOf call) call <;>
    rw [h, hframe] <;> exact ⟨rfl, rfl⟩

/-- Over a whole window the gap count counts the interruptions. -/
theorem gapCount_ingestAll (st : Stream) (source : ℤ → Int16) (origin : UInt32) {w : AudioWindow} {a : ℕ}
    (hlast : w.lastSeq = some (st.packet a).rtpSeq) {bs : List ℕ}
    (horder : (a::bs).IsChain (fun a b => a < b ∧ b ≤ a + 2^16)) :
    (w.ingestAll (bs.map (fun j => (st.packet j).call source origin))).1.gapCount =
      w.gapCount + interruptions a bs := by
  induction bs generalizing w a with
  | nil => rfl
  | cons b bs ih =>
    obtain ⟨⟨hlt, hle⟩, hrest⟩ := List.isChain_cons_cons.mp horder
    obtain ⟨hcount, hseq⟩ := ingest_gapCount w ((st.packet b).call source origin)
    have hnext := ih hseq hrest
    have hnote : (w.noteSeq (st.packet b).rtpSeq).gapCount = w.gapCount + if b = a+1 then 0 else 1 := by
      simp only [noteSeq, hlast, ne_eq, Stream.rtpSeq_eq_succ_iff hlt hle]
      split_ifs <;> rfl
    calc _ = (w.ingest ((st.packet b).call source origin)).1.gapCount + interruptions b bs := hnext
      _ = w.gapCount + interruptions a (b::bs) := by
          rw [hcount, interruptions, ← Nat.add_assoc]
          exact congrArg (· + interruptions b bs) hnote

end AudioWindow

/-- Packets of one stream are fed to a fresh window in their order, each lost together with fewer than
2^16 others in a row. The gap count says how many losses there were; if it is zero, the window has no
silence between its first sample and the high-water mark, but every sample of the source. -/
theorem gaps_counted (st : Stream) (source : ℤ → Int16) (origin : UInt32) (windowStart : ℤ) (freq : F64)
    (rate secs : UInt32) (a : ℕ) (bs : List ℕ) (hcap : rate.toNat*secs.toNat ≤ 2^31)
    (horder : (a::bs).IsChain (fun a b => a < b ∧ b ≤ a + 2^16))
    (hnear : ∀ b ∈ bs, (st.packet b).start - (st.packet a).start < 2^31) :
    let w := AudioWindow.new windowStart freq rate secs
    let s := min (w.wallOf ((st.packet a).call source origin)) (rate.toNat*secs.toNat - 1)
    let w' := (w.ingestAll ((a::bs).map (fun j => (st.packet j).call source origin))).1
    w'.gapCount = interruptions a bs ∧
    (w'.gapCount = 0 → ∀ i, s ≤ i → i < w'.samplesWritten →
      w'.samples[i]? = some (source ((st.packet a).start + (i - s)))) := by
  intro w s w'
  have hchain : (a::bs).IsChain (· < ·) := horder.imp (fun _ _ h => h.1)
  have hsorted (b : ℕ) (hb : b ∈ bs) : a ≤ b := (List.rel_of_pairwise_cons hchain.pairwise hb).le
  have hcount : w'.gapCount = interruptions a bs := by
    obtain ⟨hfirst, hseq⟩ := AudioWindow.ingest_gapCount w ((st.packet a).call source origin)
    have hrest := AudioWindow.gapCount_ingestAll st source origin hseq horder
    exact hrest.trans (by rw [hfirst]; exact Nat.zero_add _)
  refine ⟨hcount, ?_⟩
  intro hzero i hi hwritten
  have hplaced : Placed source (st.packet a).start s (rate.toNat*secs.toNat)
      ((bs.map st.packet).reverse ++ [st.packet a]) w' := by
    have hfirst := AudioWindow.anchored_first source origin windowStart freq rate secs (st.packet a)
    have hall := hfirst.ingestAll hcap (bs.map st.packet) ?_
    · rw [List.map_map] at hall
      exact hall.placed
    · intro p hp
      obtain ⟨b, hb, rfl⟩ := List.mem_map.mp hp
      have hmono := st.start_mono (hsorted b hb)
      have hb := hnear b hb
      rw [abs_lt]
      simp only at hmono
      omega
  have hmem (p : SourcePacket) :
      p ∈ (bs.map st.packet).reverse ++ [st.packet a] ↔ ∃ j ∈ a::bs, p = st.packet j := by
    simp only [List.mem_append, List.mem_reverse, List.mem_map, List.mem_cons]
    grind
  -- The packet that ends at the high-water mark has all packets from the first one on before it.
  obtain ⟨p, hp, hadm, hend⟩ | ⟨-, hnone⟩ := hplaced.written_eq
  · obtain ⟨m, hm, rfl⟩ := (hmem p).mp hp
    have ham : a ≤ m := by
      obtain rfl | hm := List.mem_cons.mp hm
      · exact le_rfl
      · exact hsorted m hm
    obtain ⟨j, haj, hjm, hcontains⟩ := st.exists_contains ham
      (k := (st.packet a).start + (i - s)) (by omega) (by rw [st.start_succ]; simp only [endPos] at hend; omega)
    have hj := mem_of_uninterrupted (hcount ▸ hzero) hm haj hjm
    have hreceived : Received (st.packet a).start s (rate.toNat*secs.toNat)
        ((bs.map st.packet).reverse ++ [st.packet a]) ((st.packet a).start + (i - s)) := by
      refine ⟨st.packet j, (hmem _).mpr ⟨j, hj, rfl⟩, ⟨st.start_mono haj, ?_⟩, hcontains⟩
      have hle := st.start_mono (Nat.succ_le_succ hjm)
      have hfit := hadm.2
      simp only [endPos, Nat.succ_eq_add_one, st.start_succ] at hle hfit ⊢
      omega
    have hlt : i < rate.toNat*secs.toNat := by
      have hfit := hadm.2
      omega
    rw [hplaced.samples_eq i hlt, if_pos hreceived]
  · omega

/-- One sample a packet. -/
def singles : Stream where
  packet j := ⟨j, 1, true, UInt16.ofNat j, 1, 9, 2000000000⟩
  rtpSeq_succ j := UInt16.ofNat_add j 1
  start_succ j := by push_cast; rfl

/-- The third of four packets is lost. -/
theorem gaps_counted_loss :
    ((AudioWindow.new 0 ⟨0⟩ 1 111).ingestAll
      ([0, 1, 3].map (fun j => (singles.packet j).call (fun _ => 7) 0xFFFFFFFE))).1.gapCount = 1 :=
  (gaps_counted singles (fun _ => 7) 0xFFFFFFFE 0 ⟨0⟩ 1 111 0 [1, 3] (by decide) (by decide)
    (by decide)).1

end Wsprrs
