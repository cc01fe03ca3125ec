import JavaTokens.Lexer
import JavaTokens.Session
import JavaTokens.Reader.Lemmas
import JavaTokens.Proofs.Encoding
import JavaTokens.Proofs.Rest
import JavaTokens.Proofs.Reading
import JavaTokens.Proofs.Cut.Basic
import JavaTokens.Proofs.Cut.Symbol
import JavaTokens.Proofs.Cut.Numeral
import JavaTokens.Proofs.Cut.Word
import JavaTokens.Proofs.Cut.Quoted
import JavaTokens.Proofs.Cut.Trivia
import JavaTokens.Proofs.Cut.First
import JavaTokens.Proofs.Pieces
import JavaTokens.Proofs.Partition
import JavaTokens.Proofs.Context
import JavaTokens.Proofs.Emission
import JavaTokens.Proofs.Relexing
import JavaTokens.Proofs.Lines
import JavaTokens.Proofs.Joining
import JavaTokens.Proofs.Listing
import JavaTokens.Proofs.Spelling
import JavaTokens.Proofs.Kind.Word
import JavaTokens.Proofs.Kind.Numeral
import JavaTokens.Proofs.Kind.Literal
import JavaTokens.Proofs.Groups
import JavaTokens.Proofs.Kind
import JavaTokens.Proofs.Splitting
import JavaTokens.Proofs.LineEnds
import JavaTokens.Proofs.LineTerminators
import JavaTokens.Proofs.PlainBytes
import JavaTokens.Proofs.OriginLines
import JavaTokens.Proofs.Stretches
import JavaTokens.Proofs.NestedTypes
import JavaTokens.Proofs.Separators
import JavaTokens.Proofs.NumeralTexts
import JavaTokens.Proofs.CollapseLimits
import JavaTokens.Proofs.LongestNumerals
import JavaTokens.Proofs.StringGrammar
import JavaTokens.Proofs.AsciiClasses
import JavaTokens.Proofs.LongestSymbols
import JavaTokens.Proofs.LongestWords
import JavaTokens.Proofs.CharacterGrammar
import JavaTokens.Proofs.NormalLiterals
import JavaTokens.Proofs.Comments
import JavaTokens.Proofs.Places
import JavaTokens.Proofs.DigitGroups
import JavaTokens.Proofs.ByteLanguages
import JavaTokens.Proofs.NumeralGrammar
import JavaTokens.Proofs.TokenTexts
import JavaTokens.Proofs.LineLookup
import JavaTokens.Proofs.Overflow
import JavaTokens.Proofs.Sessions
