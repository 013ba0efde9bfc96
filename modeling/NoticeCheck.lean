import NoticeCheck.Expectation
import NoticeCheck.Fixture
import NoticeCheck.Transcript
import NoticeCheck.Proofs.Check
import NoticeCheck.Proofs.Layout
import NoticeCheck.Proofs.Task
import NoticeCheck.Proofs.Text
import NoticeCheck.Proofs.Block
import NoticeCheck.Proofs.Planning
import NoticeCheck.Proofs.Directive
import NoticeCheck.Proofs.Revision
import NoticeCheck.Proofs.PlainReading
import NoticeCheck.Proofs.Probing
import NoticeCheck.Proofs.Rereading
import NoticeCheck.Proofs.Disk
import NoticeCheck.Proofs.Storing
import NoticeCheck.Proofs.PrintedNotice
import NoticeCheck.Proofs.Transcript
import NoticeCheck.Proofs.Pairing
import NoticeCheck.Proofs.Expected
import NoticeCheck.Proofs.Reporting
import NoticeCheck.Proofs.Blockwise
import NoticeCheck.Proofs.Failure
import NoticeCheck.Proofs.Loosening
import NoticeCheck.Proofs.Recording
import NoticeCheck.Proofs.Ties
import NoticeCheck.Proofs.Reordering
import NoticeCheck.Proofs.Gathering
import NoticeCheck.Proofs.Tagging
import NoticeCheck.Proofs.CanonicalLine
import NoticeCheck.Proofs.Renumbering
import NoticeCheck.Proofs.Writing
import NoticeCheck.Proofs.Keeping
import NoticeCheck.Proofs.Operation
import NoticeCheck.Proofs.Asserting
import NoticeCheck.Proofs.Revealing
import NoticeCheck.Proofs.Appending
import NoticeCheck.Proofs.Entries
import NoticeCheck.Proofs.Respelling
import NoticeCheck.Proofs.Rendering
import NoticeCheck.Proofs.Legibility
import NoticeCheck.Proofs.Targeting
import NoticeCheck.Proofs.Superseding
import NoticeCheck.Proofs.Erasing
import NoticeCheck.Proofs.SingleReveal
import NoticeCheck.Proofs.Commuting
import NoticeCheck.Proofs.Noise
import NoticeCheck.Proofs.Containment
import NoticeCheck.Proofs.Indifference
import NoticeCheck.Proofs.Collecting
import NoticeCheck.Proofs.Sorting
import NoticeCheck.Proofs.FirstMatch
