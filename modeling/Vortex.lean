import Vortex.Transducer
import Vortex.Bytes
import Vortex.Php
import Vortex.SqlLexer
import Vortex.VideoData
import Vortex.VideoUpload
import Vortex.Index
import Vortex.SqlGaps
import Vortex.SqlShape
import Vortex.Shell
import Vortex.Thumbnail
import Vortex.Paging
import Vortex.Runs
import Vortex.World
import Vortex.Media
import Vortex.OwnVideo
import Vortex.Mixing
import Vortex.InsertRows
import Vortex.Residue
import Vortex.Html
import Vortex.VideoPlayer
import Vortex.Markup
import Vortex.Columns
import Vortex.Playback
import Vortex.Entities
import Vortex.OutputBuffer
import Vortex.Response
import Vortex.Doubles
import Vortex.Numerals
import Vortex.PlayerId
import Vortex.Backtrack
import Vortex.AttributeRegex
import Vortex.Report
import Vortex.Simulation
import Vortex.Catalogue
import Vortex.Publishing
import Vortex.Deployment
import Vortex.Progress
import Vortex.HtmlText
import Vortex.Pages
import Vortex.ErrorPage
import Vortex.Links
import Vortex.Live
import Vortex.Routes
import Vortex.Tour
import Vortex.Reach
import Vortex.AvLog
import Vortex.Dump
import Vortex.FileRow
import Vortex.Viewing
import Vortex.Watching
